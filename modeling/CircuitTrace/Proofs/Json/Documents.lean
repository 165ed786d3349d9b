import CircuitTrace.Json.Reader
import CircuitTrace.Proofs.Json.Lexemes

/-! # Written values are read back

A value that is made of texts, numbers and words (`Printable`) has the same tokens in both layouts
(`lexes_compact`, `lexes_pretty`): white space stands only where no token is under way, and a number
is always followed by something that it does not take (`Lexes`). The reader rebuilds a value from
its tokens, wherever it stands (`documentsFrom_toTokens`). So a text that holds a value in one of
the layouts is read as that value alone (`documents_compact`, `documents_pretty`). -/

namespace CircuitTrace.Json

/-! ### Tokens of values -/

mutual

/-- **The tokens of a value.** -/
def toTokens : Json → List Token
  | .null => [.null]
  | .bool b => [.bool b]
  | .num lexeme => [.num lexeme]
  | .str body => [.str body]
  | .arr items => .openArray :: itemTokens items ++ [.closeArray]
  | .obj members => .openObject :: memberTokens members ++ [.closeObject]
  | .fault => [.fault]

/-- The tokens of the items of an array. -/
def itemTokens : List Json → List Token
  | [] => []
  | [j] => toTokens j
  | j :: js => toTokens j ++ .comma :: itemTokens js

/-- The tokens of the members of an object. -/
def memberTokens : List (List Char × Json) → List Token
  | [] => []
  | [(name, j)] => .str name :: .colon :: toTokens j
  | (name, j) :: ms => .str name :: .colon :: toTokens j ++ .comma :: memberTokens ms

end

mutual

/-- **A value of texts, numbers and words.** -/
def Printable : Json → Prop
  | .null => True
  | .bool _ => True
  | .num lexeme => ∃ n, lexeme = Nat.toDigits 10 n
  | .str body => ∃ s, body = escape s
  | .arr items => AllPrintable items
  | .obj members => AllMembersPrintable members
  | .fault => False

/-- All values are of texts, numbers and words. -/
def AllPrintable : List Json → Prop
  | [] => True
  | j :: js => Printable j ∧ AllPrintable js

/-- All names are texts, and all values are of texts, numbers and words. -/
def AllMembersPrintable : List (List Char × Json) → Prop
  | [] => True
  | (name, j) :: ms => (∃ s, name = escape s) ∧ Printable j ∧ AllMembersPrintable ms

end

theorem printable_text (s : String) : Printable (text s) := ⟨_, rfl⟩

theorem printable_nat (n : Nat) : Printable (nat n) := ⟨_, rfl⟩

theorem printable_arr : ∀ {js : List Json}, (∀ j ∈ js, Printable j) → Printable (.arr js)
  | [], _ => trivial
  | j :: _, h =>
    ⟨h j List.mem_cons_self, printable_arr fun k hk => h k (List.mem_cons_of_mem j hk)⟩

theorem printable_record : ∀ {ms : List (String × Json)}, (∀ m ∈ ms, Printable m.2) →
    Printable (record ms)
  | [], _ => trivial
  | m :: _, h =>
    ⟨⟨_, rfl⟩, h m List.mem_cons_self,
      printable_record fun k hk => h k (List.mem_cons_of_mem m hk)⟩

/-! ### Texts of tokens -/

/-- **A text has tokens of its own**, whatever comes behind it that no number goes on with. -/
def Lexes (s : List Char) (ts : List Token) : Prop :=
  ∀ rest, Delimited rest → tokensFrom .between (s ++ rest) = ts ++ tokensFrom .between rest

namespace Lexes

variable {s s' : List Char} {ts ts' : List Token}

theorem tokens (h : Lexes s ts) : tokens s = ts := by
  have hrest := h [] delimited_nil
  rw [List.append_nil] at hrest
  exact hrest.trans (List.append_nil ts)

theorem nil : Lexes [] [] := fun _ _ => rfl

theorem null : Lexes "null".toList [.null] := fun _ _ => rfl

theorem bool : ∀ b : Bool, Lexes (boolWord b) [.bool b]
  | true => fun _ _ => rfl
  | false => fun _ _ => rfl

theorem num (n : Nat) : Lexes (Nat.toDigits 10 n) [.num (Nat.toDigits 10 n)] := fun _ h =>
  tokensFrom_toDigits n h

theorem str (s : List Char) : Lexes (quotedBody (escape s)) [.str (escape s)] := fun rest _ =>
  tokensFrom_quotedBody s rest

/-- A character that is a token of its own, between two texts. -/
theorem punctuated {c : Char} {t : Token} (hc : startToken c = some (.inl t))
    (hend : NumberPart.integer.next? c = none) (h : Lexes s ts) (h' : Lexes s' ts') :
    Lexes (s ++ c :: s') (ts ++ t :: ts') := by
  intro rest hrest
  have hfirst := h (c :: (s' ++ rest)) (delimited_cons hend _)
  rw [List.append_assoc, List.cons_append, hfirst, tokensFrom, hc]
  simp [h' rest hrest]

/-- Characters that are tokens of their own, around a text. -/
theorem bracketed {c d : Char} {t u : Token} (hc : startToken c = some (.inl t))
    (hd : startToken d = some (.inl u)) (hend : NumberPart.integer.next? d = none)
    (h : Lexes s ts) : Lexes (c :: s ++ [d]) (t :: ts ++ [u]) := by
  intro rest hrest
  have hinner : Lexes (s ++ [d]) (ts ++ [u]) := h.punctuated hd hend nil
  have hopen : tokensFrom .between (c :: (s ++ [d] ++ rest)) =
      t :: tokensFrom .between (s ++ [d] ++ rest) := by rw [tokensFrom, hc]
  rw [List.cons_append, List.cons_append, hopen, hinner rest hrest]
  rfl

theorem comma (h : Lexes s ts) (h' : Lexes s' ts') :
    Lexes (s ++ ',' :: s') (ts ++ .comma :: ts') := h.punctuated rfl rfl h'

theorem array (h : Lexes s ts) : Lexes ('[' :: s ++ [']']) (.openArray :: ts ++ [.closeArray]) :=
  h.bracketed rfl rfl rfl

theorem object (h : Lexes s ts) :
    Lexes ('\x7b' :: s ++ ['\x7d']) (.openObject :: ts ++ [.closeObject]) :=
  h.bracketed rfl rfl rfl

theorem colon (h : Lexes s ts) (h' : Lexes s' ts') :
    Lexes (s ++ ':' :: s') (ts ++ .colon :: ts') := h.punctuated rfl rfl h'

end Lexes

/-! ### White space -/

theorem startToken_of_isSpace {c : Char} (h : isSpace c = true) :
    startToken c = some (.inr .between) ∧ NumberPart.integer.next? c = none := by
  simp only [isSpace, Bool.or_eq_true, decide_eq_true_eq] at h
  rcases h with ((rfl | rfl) | rfl) | rfl <;> exact ⟨rfl, rfl⟩

theorem tokensFrom_spaces {w : List Char} (hw : ∀ c ∈ w, isSpace c = true) (rest : List Char) :
    tokensFrom .between (w ++ rest) = tokensFrom .between rest := by
  induction w with
  | nil => rfl
  | cons c w ih =>
    have hc := (startToken_of_isSpace (hw c List.mem_cons_self)).1
    rw [List.cons_append, tokensFrom, hc]
    exact ih fun d hd => hw d (List.mem_cons_of_mem c hd)

theorem delimited_spaces {w : List Char} (hw : ∀ c ∈ w, isSpace c = true) {rest : List Char}
    (h : Delimited rest) : Delimited (w ++ rest) := by
  rcases w with _ | ⟨c, w⟩
  · exact h
  · exact delimited_cons (startToken_of_isSpace (hw c List.mem_cons_self)).2 _

/-- White space in front of a text does not change its tokens. -/
theorem Lexes.indented {s : List Char} {ts : List Token} (h : Lexes s ts) {w : List Char}
    (hw : ∀ c ∈ w, isSpace c = true) : Lexes (w ++ s) ts := by
  intro rest hrest
  rw [List.append_assoc, tokensFrom_spaces hw, h rest hrest]

/-- White space behind a text does not change its tokens. -/
theorem Lexes.trailed {s : List Char} {ts : List Token} (h : Lexes s ts) {w : List Char}
    (hw : ∀ c ∈ w, isSpace c = true) : Lexes (s ++ w) ts := by
  intro rest hrest
  rw [List.append_assoc, h _ (delimited_spaces hw hrest), tokensFrom_spaces hw]

theorem isSpace_newLine (depth : Nat) : ∀ c ∈ newLine depth, isSpace c = true := by
  intro c hc
  rcases List.mem_cons.mp hc with rfl | hc
  · rfl
  · rw [List.eq_of_mem_replicate hc]
    rfl

theorem isSpace_space : ∀ c ∈ [' '], isSpace c = true := by simp [isSpace]

/-! ### Both layouts -/

mutual

/-- **A value without white space has its tokens.** -/
theorem lexes_compact : ∀ {j : Json}, Printable j → Lexes (compact j) (toTokens j)
  | .null, _ => .null
  | .bool b, _ => .bool b
  | .num _, ⟨n, rfl⟩ => .num n
  | .str _, ⟨s, rfl⟩ => .str s
  | .arr _, h => (lexes_compactItems h).array
  | .obj _, h => (lexes_compactMembers h).object

theorem lexes_compactItems : ∀ {js : List Json}, AllPrintable js →
    Lexes (compactItems js) (itemTokens js)
  | [], _ => .nil
  | [_], h => lexes_compact h.1
  | _ :: _ :: _, h => (lexes_compact h.1).comma (lexes_compactItems h.2)

theorem lexes_compactMembers : ∀ {ms : List (List Char × Json)}, AllMembersPrintable ms →
    Lexes (compactMembers ms) (memberTokens ms)
  | [], _ => .nil
  | [(_, _)], ⟨⟨s, rfl⟩, hj, _⟩ => (Lexes.str s).colon (lexes_compact hj)
  | (_, _) :: _ :: _, ⟨⟨s, rfl⟩, hj, hms⟩ =>
    ((Lexes.str s).colon (lexes_compact hj)).comma (lexes_compactMembers hms)

end

mutual

/-- **A value on indented lines has its tokens.** -/
theorem lexes_prettyAt : ∀ (depth : Nat) {j : Json}, Printable j →
    Lexes (prettyAt depth j) (toTokens j)
  | _, .null, _ => .null
  | _, .bool b, _ => .bool b
  | _, .num _, ⟨n, rfl⟩ => .num n
  | _, .str _, ⟨s, rfl⟩ => .str s
  | _, .arr [], _ => Lexes.nil.array
  | depth, .arr (_ :: _), h =>
    ((lexes_prettyItems (depth + 1) h).trailed (isSpace_newLine depth)).array
  | _, .obj [], _ => Lexes.nil.object
  | depth, .obj (_ :: _), h =>
    ((lexes_prettyMembers (depth + 1) h).trailed (isSpace_newLine depth)).object

theorem lexes_prettyItems : ∀ (depth : Nat) {js : List Json}, AllPrintable js →
    Lexes (prettyItems depth js) (itemTokens js)
  | _, [], _ => .nil
  | depth, [_], h => (lexes_prettyAt depth h.1).indented (isSpace_newLine depth)
  | depth, _ :: _ :: _, h =>
    ((lexes_prettyAt depth h.1).indented (isSpace_newLine depth)).comma
      (lexes_prettyItems depth h.2)

theorem lexes_prettyMembers : ∀ (depth : Nat) {ms : List (List Char × Json)},
    AllMembersPrintable ms → Lexes (prettyMembers depth ms) (memberTokens ms)
  | _, [], _ => .nil
  | depth, [(_, _)], ⟨⟨s, rfl⟩, hj, _⟩ =>
    ((Lexes.str s).indented (isSpace_newLine depth)).colon
      ((lexes_prettyAt depth hj).indented isSpace_space)
  | depth, (_, _) :: _ :: _, ⟨⟨s, rfl⟩, hj, hms⟩ =>
    (((Lexes.str s).indented (isSpace_newLine depth)).colon
      ((lexes_prettyAt depth hj).indented isSpace_space)).comma (lexes_prettyMembers depth hms)

end

/-! ### Reading values -/

/-- The values of the rest of a text behind a token, given what that token has led to. -/
def Progress.resume : Progress → List Token → List Json
  | .more fs spot, ts => documentsFrom fs spot ts
  | .done j, ts => j :: documentsFrom [] .value ts

theorem documentsFrom_cons (fs : List Frame) (spot : Spot) (t : Token) (ts : List Token) :
    documentsFrom fs spot (t :: ts) = (advance fs spot t).resume ts := by
  rw [documentsFrom]
  cases advance fs spot t <;> rfl

theorem documentsFrom_arrayStart {j : Json} {js : List Json} (h : Printable j) (fs : List Frame)
    (ts : List Token) :
    documentsFrom fs .arrayStart (itemTokens (j :: js) ++ ts) =
      documentsFrom (.item [] :: fs) .value (itemTokens (j :: js) ++ ts) := by
  obtain ⟨t, us, hj, hadvance⟩ : ∃ t us, toTokens j = t :: us ∧
      advance fs .arrayStart t = advance (.item [] :: fs) .value t := by
    cases j with
    | fault => cases h
    | _ => exact ⟨_, _, rfl, rfl⟩
  obtain ⟨vs, hitems⟩ : ∃ vs, itemTokens (j :: js) = t :: vs := by
    cases js with
    | nil => exact ⟨us, hj⟩
    | cons k js => exact ⟨us ++ .comma :: itemTokens (k :: js), by simp [itemTokens, hj]⟩
  rw [hitems, List.cons_append, documentsFrom_cons, documentsFrom_cons, hadvance]

theorem documentsFrom_objectStart (m : List Char × Json) (ms : List (List Char × Json))
    (fs : List Frame) (ts : List Token) :
    documentsFrom fs .objectStart (memberTokens (m :: ms) ++ ts) =
      documentsFrom fs (.name []) (memberTokens (m :: ms) ++ ts) := by
  obtain ⟨us, hmembers⟩ : ∃ us, memberTokens (m :: ms) = .str m.1 :: us := by
    cases ms with
    | nil => exact ⟨_, rfl⟩
    | cons n ms => exact ⟨_, rfl⟩
  rw [hmembers, List.cons_append, documentsFrom_cons, documentsFrom_cons]
  rfl

theorem documentsFrom_name (before : List (List Char × Json)) (name : List Char)
    (fs : List Frame) (ts : List Token) :
    documentsFrom fs (.name before) (.str name :: .colon :: ts) =
      documentsFrom (.member before name :: fs) .value ts := by
  rw [documentsFrom_cons]
  exact documentsFrom_cons fs (.colon before name) .colon ts

mutual

/-- **A value is rebuilt from its tokens** and delivered in the place where it is due. -/
theorem documentsFrom_toTokens : ∀ {j : Json}, Printable j → ∀ (fs : List Frame) (ts : List Token),
    documentsFrom fs .value (toTokens j ++ ts) = (deliver fs j).resume ts
  | .null, _, fs, ts => documentsFrom_cons fs .value .null ts
  | .bool b, _, fs, ts => documentsFrom_cons fs .value (.bool b) ts
  | .num lexeme, _, fs, ts => documentsFrom_cons fs .value (.num lexeme) ts
  | .str body, _, fs, ts => documentsFrom_cons fs .value (.str body) ts
  | .arr items, h, fs, ts => by
    have hopen : documentsFrom fs .value (toTokens (.arr items) ++ ts) =
        documentsFrom fs .arrayStart (itemTokens items ++ .closeArray :: ts) := by
      rw [toTokens, List.cons_append, List.cons_append, documentsFrom_cons, List.append_assoc]
      rfl
    rw [hopen]
    -- the first item comes in a place of its own, where the array may also end
    cases items with
    | nil => exact documentsFrom_cons fs .arrayStart .closeArray ts
    | cons j js =>
      rw [documentsFrom_arrayStart h.1]
      exact documentsFrom_itemTokens h (List.cons_ne_nil _ _) [] fs ts
  | .obj members, h, fs, ts => by
    have hopen : documentsFrom fs .value (toTokens (.obj members) ++ ts) =
        documentsFrom fs .objectStart (memberTokens members ++ .closeObject :: ts) := by
      rw [toTokens, List.cons_append, List.cons_append, documentsFrom_cons, List.append_assoc]
      rfl
    rw [hopen]
    cases members with
    | nil => exact documentsFrom_cons fs .objectStart .closeObject ts
    | cons m ms =>
      rw [documentsFrom_objectStart]
      exact documentsFrom_memberTokens h (List.cons_ne_nil _ _) [] fs ts

/-- The items of an array are rebuilt behind those that came before. -/
theorem documentsFrom_itemTokens : ∀ {js : List Json}, AllPrintable js → js ≠ [] →
    ∀ (before : List Json) (fs : List Frame) (ts : List Token),
    documentsFrom (.item before :: fs) .value (itemTokens js ++ .closeArray :: ts) =
      (deliver fs (.arr (before.reverse ++ js))).resume ts
  | [], _, hne, _, _, _ => absurd rfl hne
  | [j], h, _, before, fs, ts => by
    have hclose : documentsFrom fs (.arrayNext (j :: before)) (.closeArray :: ts) =
        (deliver fs (.arr (j :: before).reverse)).resume ts := documentsFrom_cons _ _ _ _
    rw [itemTokens, documentsFrom_toTokens h.1, deliver, Progress.resume, hclose,
      List.reverse_cons]
  | j :: k :: js, h, _, before, fs, ts => by
    have htokens : itemTokens (j :: k :: js) ++ .closeArray :: ts =
        toTokens j ++ .comma :: (itemTokens (k :: js) ++ .closeArray :: ts) := by simp [itemTokens]
    have hcomma : ∀ us, documentsFrom fs (.arrayNext (j :: before)) (.comma :: us) =
        documentsFrom (.item (j :: before) :: fs) .value us := fun us => documentsFrom_cons _ _ _ _
    have hrest := documentsFrom_itemTokens h.2 (List.cons_ne_nil _ _) (j :: before) fs ts
    rw [htokens, documentsFrom_toTokens h.1, deliver, Progress.resume, hcomma, hrest]
    simp

/-- The members of an object are rebuilt behind those that came before. -/
theorem documentsFrom_memberTokens : ∀ {ms : List (List Char × Json)}, AllMembersPrintable ms →
    ms ≠ [] → ∀ (before : List (List Char × Json)) (fs : List Frame) (ts : List Token),
    documentsFrom fs (.name before) (memberTokens ms ++ .closeObject :: ts) =
      (deliver fs (.obj (before.reverse ++ ms))).resume ts
  | [], _, hne, _, _, _ => absurd rfl hne
  | [(name, j)], h, _, before, fs, ts => by
    have hclose : documentsFrom fs (.objectNext ((name, j) :: before)) (.closeObject :: ts) =
        (deliver fs (.obj ((name, j) :: before).reverse)).resume ts := documentsFrom_cons _ _ _ _
    rw [memberTokens, List.cons_append, List.cons_append, documentsFrom_name,
      documentsFrom_toTokens h.2.1, deliver, Progress.resume, hclose, List.reverse_cons]
  | (name, j) :: m :: ms, h, _, before, fs, ts => by
    have htokens : memberTokens ((name, j) :: m :: ms) ++ .closeObject :: ts = .str name ::
        .colon :: (toTokens j ++ .comma :: (memberTokens (m :: ms) ++ .closeObject :: ts)) := by
      simp [memberTokens]
    have hcomma : ∀ us, documentsFrom fs (.objectNext ((name, j) :: before)) (.comma :: us) =
        documentsFrom fs (.name ((name, j) :: before)) us := fun us => documentsFrom_cons _ _ _ _
    have hrest :=
      documentsFrom_memberTokens h.2.2 (List.cons_ne_nil _ _) ((name, j) :: before) fs ts
    rw [htokens, documentsFrom_name, documentsFrom_toTokens h.2.1, deliver, Progress.resume,
      hcomma, hrest]
    simp

end

/-- **Values one after the other are rebuilt from their tokens.** -/
theorem documentsFrom_flatMap_toTokens : ∀ {js : List Json}, (∀ j ∈ js, Printable j) →
    documentsFrom [] .value (js.flatMap toTokens) = js
  | [], _ => rfl
  | j :: js, h => by
    rw [List.flatMap_cons, documentsFrom_toTokens (h j List.mem_cons_self), deliver,
      Progress.resume, documentsFrom_flatMap_toTokens fun k hk => h k (List.mem_cons_of_mem j hk)]

theorem Lexes.documents {s : List Char} {j : Json} (h : Lexes s (toTokens j)) (hj : Printable j) :
    documents s = [j] := by
  have hone : documentsFrom [] .value ([j].flatMap toTokens) = [j] :=
    documentsFrom_flatMap_toTokens (by simpa using hj)
  have htokens : [j].flatMap toTokens = toTokens j := by simp
  unfold Json.documents
  rw [h.tokens, ← htokens, hone]

/-- **A value without white space is read back.** -/
theorem documents_compact {j : Json} (h : Printable j) : documents (compact j) = [j] :=
  (lexes_compact h).documents h

/-- **A value on indented lines is read back.** -/
theorem documents_pretty {j : Json} (h : Printable j) : documents (pretty j) = [j] :=
  (lexes_prettyAt 0 h).documents h

end CircuitTrace.Json
