/-
Documents as they are written down. In a draft the members of an object stand in the order in which
they were written, and a key may come more than once. The grammar says how a draft is spelled, blanks
and escapes included; whatever is read is spelled by a draft, and a text that spells a draft without
real numbers is read as the document of the draft if its nesting is within the limit, and not at all
otherwise.
-/
import TradeLedger.Proofs.Json.Text

namespace TradeLedger.Json

/-! ## Blanks -/

def Blank (b : List Char) : Prop := ∀ c ∈ b, isSpace c = true

theorem blank_nil : Blank [] := by simp [Blank]

theorem Blank.append {b b' : List Char} (h : Blank b) (h' : Blank b') : Blank (b ++ b') :=
  List.forall_mem_append.2 ⟨h, h'⟩

theorem skip_append {b : List Char} (h : Blank b) (cs : List Char) : skip (b ++ cs) = skip cs :=
  List.dropWhile_append_of_pos h

theorem skip_cons {c : Char} (h : isSpace c = false) (cs : List Char) : skip (c :: cs) = c :: cs :=
  List.dropWhile_cons_of_neg (by simp [h])

theorem exists_blank (cs : List Char) : ∃ b, Blank b ∧ cs = b ++ skip cs :=
  ⟨cs.takeWhile isSpace, fun _ hc => List.mem_takeWhile_imp hc, List.takeWhile_append_dropWhile.symm⟩

/-- Blanks end a number. -/
theorem Ends.blank {b rest : List Char} (hb : Blank b) (h : Ends rest) : Ends (b ++ rest) := by
  cases b with
  | nil => exact h
  | cons c b =>
    intro x hx
    rw [List.cons_append, List.head?_cons, Option.mem_some_iff] at hx
    have hspace := hb c List.mem_cons_self
    simp only [isSpace, Bool.or_eq_true, decide_eq_true_eq] at hspace
    rcases hspace with ((rfl | rfl) | rfl) | rfl <;> subst hx <;> decide

/-! ## What stands between commas -/

section Separated

variable {α β : Type}

/-- Values with a comma between each two, and blanks around each. -/
inductive Separated (P : α → List Char → Prop) : List α → List Char → Prop where
  | last {x : α} {b cs b' : List Char} : Blank b → P x cs → Blank b' → Separated P [x] (b ++ cs ++ b')
  | next {x : α} {xs : List α} {b cs b' more : List Char} : Blank b → P x cs → Blank b' → Separated P xs more →
      Separated P (x :: xs) (b ++ cs ++ b' ++ ',' :: more)

/-- A key between quotes, a colon, and a value. -/
inductive Member (P : α → List Char → Prop) : String × α → List Char → Prop where
  | member {k : String} {x : α} {key b b' cs : List Char} : TextSpelt k.toList key → Blank b → Blank b' → P x cs →
      Member P (k, x) ('"' :: key ++ '"' :: (b ++ ':' :: (b' ++ cs)))

/-- Reads values up to a closing character, at most `most` of them. -/
def readSeparated (item : List Char → Option (α × List Char)) (close : Char) :
    (most : ℕ) → List Char → Option (List α × List Char)
  | 0, _ => none
  | most + 1, cs => do
    let (x, cs) ← item cs
    match skip cs with
    | c :: rest =>
      if c = close then return ([x], rest)
      else if c = ',' then
        let (more, rest) ← readSeparated item close most rest
        return (x :: more, rest)
      else none
    | [] => none

def readMember (item : List Char → Option (α × List Char)) (cs : List Char) : Option ((String × α) × List Char) :=
  match skip cs with
  | '"' :: rest => do
    let (k, rest) ← readText rest
    match skip rest with
    | ':' :: rest => do
      let (v, rest) ← item rest
      return ((k, v), rest)
    | _ => none
  | _ => none

theorem readItems_eq (item : List Char → Option (Json × List Char)) (most : ℕ) (cs : List Char) :
    readItems item most cs = readSeparated item ']' most cs := by
  induction most generalizing cs with
  | zero => rfl
  | succ most ih =>
    rw [readItems, readSeparated]
    cases item cs with
    | none => rfl
    | some r =>
      obtain ⟨x, cs⟩ := r
      simp only [Option.bind_eq_bind, Option.bind_some]
      cases skip cs with
      | nil => rfl
      | cons c rest =>
        by_cases hclose : c = ']'
        · subst hclose
          rfl
        by_cases hcomma : c = ','
        · subst hcomma
          simp [ih]
        · simp [hclose, hcomma]

theorem readMembers_eq (item : List Char → Option (Json × List Char)) (most : ℕ) (cs : List Char) :
    readMembers item most cs = readSeparated (readMember item) '\x7d' most cs := by
  induction most generalizing cs with
  | zero => rfl
  | succ most ih =>
    cases hskip : skip cs with
    | nil => simp [readMembers, readSeparated, readMember, hskip]
    | cons c rest =>
      by_cases hquote : c = '"'
      · subst hquote
        simp only [readMembers, readSeparated, readMember, hskip]
        cases readText rest with
        | none => rfl
        | some r =>
          obtain ⟨k, cs₁⟩ := r
          simp only [Option.bind_eq_bind, Option.bind_some]
          cases hskip₁ : skip cs₁ with
          | nil => rfl
          | cons c rest =>
            by_cases hcolon : c = ':'
            · subst hcolon
              simp only
              cases item rest with
              | none => rfl
              | some r =>
                obtain ⟨v, cs₂⟩ := r
                simp only [Option.bind_some, Option.pure_def]
                cases skip cs₂ with
                | nil => rfl
                | cons c rest =>
                  by_cases hclose : c = '\x7d'
                  · subst hclose
                    rfl
                  by_cases hcomma : c = ','
                  · subst hcomma
                    simp [ih]
                  · simp [hclose, hcomma]
            · simp [hcolon]
      · simp [readMembers, readSeparated, readMember, hskip, hquote]

variable {P : α → List Char → Prop} {close : Char}

theorem Separated.blank {xs : List α} {b text : List Char} (hb : Blank b) (h : Separated P xs text) :
    Separated P xs (b ++ text) := by
  cases h with
  | last hb₁ hx hb₂ =>
    simp only [← List.append_assoc]
    exact .last (hb.append hb₁) hx hb₂
  | next hb₁ hx hb₂ hmore =>
    simp only [← List.append_assoc]
    exact .next (hb.append hb₁) hx hb₂ hmore

/-- Whatever is read up to a closing character stands there, value by value. -/
theorem separated_of_readSeparated {γ : Type} {item : List Char → Option (γ × List Char)}
    (hitem : ∀ cs y rest, item cs = some (y, rest) → ∃ b text x, Blank b ∧ P x text ∧ cs = b ++ text ++ rest)
    {most : ℕ} {cs rest : List Char} {ys : List γ} (h : readSeparated item close most cs = some (ys, rest)) :
    ∃ xs text, Separated P xs text ∧ cs = text ++ close :: rest := by
  induction most generalizing cs ys rest with
  | zero => cases h
  | succ most ih =>
    obtain ⟨⟨y, cs₁⟩, hy, h⟩ := Option.bind_eq_some_iff.1 h
    obtain ⟨b, text, x, hb, hx, hcs⟩ := hitem _ _ _ hy
    obtain ⟨b', hb', hskip⟩ := exists_blank cs₁
    dsimp only at h
    split at h
    · rename_i c rest₁ heq
      rw [heq] at hskip
      by_cases hclose : c = close
      · rw [if_pos hclose] at h
        cases h
        exact ⟨[x], _, .last hb hx hb', by rw [hcs, hskip, hclose]; simp⟩
      rw [if_neg hclose] at h
      by_cases hcomma : c = ','
      · rw [if_pos hcomma] at h
        obtain ⟨⟨more, rest₂⟩, hmore, h⟩ := Option.bind_eq_some_iff.1 h
        cases h
        obtain ⟨xs, text', hxs, rfl⟩ := ih hmore
        exact ⟨x :: xs, _, .next hb hx hb' hxs, by rw [hcs, hskip, hcomma]; simp⟩
      · rw [if_neg hcomma] at h
        cases h
    · cases h

/-- A character that closes a list of values: it is not taken for anything else. -/
def Closes (close : Char) : Prop := isSpace close = false ∧ close ≠ ',' ∧ Ends [close]

theorem closes_bracket : Closes ']' := by
  refine ⟨by decide, by decide, fun c hc => ?_⟩
  cases hc
  decide

theorem closes_brace : Closes '\x7d' := by
  refine ⟨by decide, by decide, fun c hc => ?_⟩
  cases hc
  decide

theorem ends_comma (rest : List Char) : Ends (',' :: rest) := by
  intro c hc
  cases hc
  decide

/-- What stands before a closing character is read value by value, if each value is. -/
theorem readSeparated_of_separated {item : List Char → Option (β × List Char)} {f : α → Option β} (hclose : Closes close)
    {xs : List α} {text : List Char} (h : Separated P xs text)
    (hitem : ∀ x ∈ xs, ∀ b cs rest, Blank b → P x cs → Ends rest → item (b ++ cs ++ rest) = (f x).map (·, rest))
    {most : ℕ} (hmost : xs.length ≤ most) (rest : List Char) :
    readSeparated item close most (text ++ close :: rest) = (xs.mapM f).map (·, rest) := by
  obtain ⟨hspace, hcomma, hends⟩ := hclose
  induction h generalizing most with
  | @last x b cs b' hb hx hb' =>
    obtain ⟨most, rfl⟩ : ∃ k, most = k + 1 := ⟨most - 1, by rw [List.length_singleton] at hmost; omega⟩
    have hread := hitem x List.mem_cons_self b cs (b' ++ close :: rest) hb hx (.blank hb' hends)
    rw [readSeparated, List.append_assoc, hread, List.mapM_cons, List.mapM_nil]
    cases f x with
    | none => rfl
    | some y => simp [skip_append hb', skip_cons hspace]
  | @next x xs b cs b' more hb hx hb' _ ih =>
    obtain ⟨most, rfl⟩ : ∃ k, most = k + 1 := ⟨most - 1, by rw [List.length_cons] at hmost; omega⟩
    have hread := hitem x List.mem_cons_self b cs (b' ++ ',' :: (more ++ close :: rest)) hb hx
      (.blank hb' (ends_comma _))
    have hmore := ih (fun y hy => hitem y (List.mem_cons_of_mem _ hy)) (Nat.le_of_succ_le_succ hmost)
    have hassoc : b ++ cs ++ b' ++ ',' :: more ++ close :: rest =
        b ++ cs ++ (b' ++ ',' :: (more ++ close :: rest)) := by simp
    rw [readSeparated, hassoc, hread, List.mapM_cons]
    cases f x with
    | none => rfl
    | some y =>
      simp only [Option.map_some, Option.bind_eq_bind, Option.bind_some, skip_append hb',
        skip_cons (show isSpace ',' = false by decide), if_neg hcomma.symm, if_true, hmore]
      cases xs.mapM f <;> rfl

/-- There are no more values than characters before the one that closes them. -/
theorem Separated.length_le {xs : List α} {text : List Char} (h : Separated P xs text) :
    xs.length ≤ text.length + 1 := by
  induction h with
  | last => simp
  | next _ _ _ _ ih =>
    simp only [List.length_append, List.length_cons]
    omega

/-- Text that starts a value: neither a blank nor a closing character comes first. -/
def Starts (cs : List Char) : Prop := ∃ c rest, cs = c :: rest ∧ isSpace c = false ∧ c ≠ ']' ∧ c ≠ '\x7d'

/-- The blanks in front can be skipped. -/
theorem Separated.exists_skip (hP : ∀ x cs, P x cs → Starts cs) {xs : List α} {text : List Char}
    (h : Separated P xs text) :
    ∃ trimmed, Separated P xs trimmed ∧ Starts trimmed ∧ ∀ rest, skip (text ++ rest) = trimmed ++ rest := by
  have skipped {b cs : List Char} (hb : Blank b) (hcs : Starts cs) (rest : List Char) :
      skip (b ++ (cs ++ rest)) = cs ++ rest := by
    obtain ⟨c, cs, rfl, hspace, -⟩ := hcs
    rw [skip_append hb, List.cons_append, skip_cons hspace]
  have starts {cs : List Char} (hcs : Starts cs) (rest : List Char) : Starts (cs ++ rest) := by
    obtain ⟨c, cs, rfl, hstarts⟩ := hcs
    exact ⟨c, cs ++ rest, rfl, hstarts⟩
  cases h with
  | @last x b cs b' hb hx hb' =>
    have hcs := hP x cs hx
    refine ⟨[] ++ cs ++ b', .last blank_nil hx hb', starts hcs b', fun rest => ?_⟩
    simpa using skipped hb hcs (b' ++ rest)
  | @next x xs b cs b' more hb hx hb' hmore =>
    have hcs := hP x cs hx
    refine ⟨[] ++ cs ++ b' ++ ',' :: more, .next blank_nil hx hb' hmore, starts (starts hcs b') _, fun rest => ?_⟩
    simpa using skipped hb hcs (b' ++ (',' :: more ++ rest))

/-- A member is read if its value is. -/
theorem readMember_of_member {item : List Char → Option (β × List Char)} {f : α → Option β} {m : String × α}
    {b cs rest : List Char} (hb : Blank b) (h : Member P m cs)
    (hitem : ∀ b cs, Blank b → P m.2 cs → item (b ++ cs ++ rest) = (f m.2).map (·, rest)) :
    readMember item (b ++ cs ++ rest) = ((f m.2).map (m.1, ·)).map (·, rest) := by
  cases h with
  | @member k x key b₁ b₂ cs hkey hb₁ hb₂ hx =>
    have hassoc : b ++ ('"' :: key ++ '"' :: (b₁ ++ ':' :: (b₂ ++ cs))) ++ rest =
        b ++ '"' :: (key ++ '"' :: (b₁ ++ ':' :: (b₂ ++ cs ++ rest))) := by simp
    have hread : readText (key ++ '"' :: (b₁ ++ ':' :: (b₂ ++ cs ++ rest))) =
        some (k, b₁ ++ ':' :: (b₂ ++ cs ++ rest)) := readText_eq_some_iff.2 ⟨key, hkey, rfl⟩
    rw [hassoc, readMember, skip_append hb, skip_cons (by decide)]
    simp only [hread, Option.bind_eq_bind, Option.bind_some, skip_append hb₁,
      skip_cons (show isSpace ':' = false by decide), hitem b₂ cs hb₂ hx]
    cases f x <;> rfl

/-- Whatever is read as a member stands there as one. -/
theorem member_of_readMember {γ : Type} {item : List Char → Option (γ × List Char)}
    (hitem : ∀ cs y rest, item cs = some (y, rest) → ∃ b text x, Blank b ∧ P x text ∧ cs = b ++ text ++ rest)
    {cs rest : List Char} {m : String × γ} (h : readMember item cs = some (m, rest)) :
    ∃ b text x, Blank b ∧ Member P x text ∧ cs = b ++ text ++ rest := by
  obtain ⟨b, hb, hskip⟩ := exists_blank cs
  unfold readMember at h
  split at h
  · rename_i rest₁ heq
    obtain ⟨⟨k, rest₂⟩, hk, h⟩ := Option.bind_eq_some_iff.1 h
    obtain ⟨key, hkey, hrest⟩ := readText_eq_some_iff.1 hk
    obtain ⟨b₁, hb₁, hskip₁⟩ := exists_blank rest₂
    dsimp only at h
    split at h
    · rename_i rest₃ heq₁
      obtain ⟨⟨v, rest₄⟩, hv, h⟩ := Option.bind_eq_some_iff.1 h
      cases h
      obtain ⟨b₂, text, x, hb₂, hx, rfl⟩ := hitem _ _ _ hv
      refine ⟨b, _, (k, x), hb, .member hkey hb₁ hb₂ hx, ?_⟩
      rw [hskip, heq, hrest, hskip₁, heq₁]
      simp
    · cases h
  · cases h

end Separated

/-! ## Drafts -/

/-- A document as it is written down. A number that is no integer within 64 bits keeps its characters. -/
inductive Draft where
  | null
  | bool (b : Bool)
  | integer (i : ℤ)
  | real (characters : List Char)
  | text (s : String)
  | list (items : List Draft)
  | object (members : List (String × Draft))

namespace Draft

/-- How a draft is spelled, the blanks around it left out. -/
inductive Spells : Draft → List Char → Prop where
  | null : Spells .null ['n', 'u', 'l', 'l']
  | true : Spells (.bool true) ['t', 'r', 'u', 'e']
  | false : Spells (.bool false) ['f', 'a', 'l', 's', 'e']
  | integer {i : ℤ} {cs : List Char} : Literal i cs → Spells (.integer i) cs
  | real {cs : List Char} : Written cs → (∀ i, ¬ Literal i cs) → Spells (.real cs) cs
  | text {s : String} {cs : List Char} : TextSpelt s.toList cs → Spells (.text s) ('"' :: cs ++ ['"'])
  | emptyList {b : List Char} : Blank b → Spells (.list []) ('[' :: b ++ [']'])
  | list {items : List Draft} {cs : List Char} : Separated Spells items cs → Spells (.list items) ('[' :: cs ++ [']'])
  | emptyObject {b : List Char} : Blank b → Spells (.object []) ('\x7b' :: b ++ ['\x7d'])
  | object {members : List (String × Draft)} {cs : List Char} : Separated (Member Spells) members cs →
      Spells (.object members) ('\x7b' :: cs ++ ['\x7d'])

/-- The text says the draft and nothing else, blanks around it allowed. -/
def Says (s : String) (a : Draft) : Prop := ∃ b cs b', Blank b ∧ Spells a cs ∧ Blank b' ∧ s.toList = b ++ cs ++ b'

/-- Every number is an integer that 64 bits hold, signed or not. -/
inductive Integral : Draft → Prop where
  | null : Integral .null
  | bool (b : Bool) : Integral (.bool b)
  | integer {i : ℤ} : -2 ^ 63 ≤ i → i < 2 ^ 64 → Integral (.integer i)
  | text (s : String) : Integral (.text s)
  | list {items : List Draft} : (∀ a ∈ items, Integral a) → Integral (.list items)
  | object {members : List (String × Draft)} : (∀ m ∈ members, Integral m.2) → Integral (.object members)

/-- The document of a draft without real numbers, if lists and objects are nested at most so deep. -/
def document? : ℕ → Draft → Option Json
  | _, .null => some .null
  | _, .bool b => some (.bool b)
  | _, .integer i => some (.integer i)
  | _, .real _ => none
  | _, .text s => some (.text s)
  | 0, .list _ | 0, .object _ => none
  | depth + 1, .list items => (items.mapM (document? depth)).map .list
  | depth + 1, .object members => (members.mapM fun m => (document? depth m.2).map (m.1, ·)).map ofMembers

end Draft

/-! ## The reader -/

/-- A number starts with a digit or a minus sign. -/
theorem Written.exists_cons {cs : List Char} (h : Written cs) :
    ∃ c rest, cs = c :: rest ∧ (c = '-' ∨ '0' ≤ c ∧ c ≤ '9') := by
  cases h with
  | unsigned h =>
    cases h with
    | @magnitude whole fraction power hwhole _ _ =>
      obtain ⟨d, ds, rfl⟩ := List.exists_cons_of_ne_nil hwhole.1.1
      exact ⟨d, ds ++ fraction ++ power, rfl, .inr (hwhole.1.2 d List.mem_cons_self)⟩
  | @negative cs _ => exact ⟨'-', cs, rfl, .inl rfl⟩

theorem Literal.written {i : ℤ} {cs : List Char} (h : Literal i cs) : Written cs := by
  have magnitude {ds : List Char} (hds : Whole ds) : Magnitude ds := by
    have := Magnitude.magnitude hds .none .none
    rwa [List.append_nil, List.append_nil] at this
  cases h with
  | unsigned hds _ => exact .unsigned (magnitude hds)
  | negative hds _ _ => exact .negative (magnitude hds)

theorem Written.starts {cs : List Char} (h : Written cs) : Starts cs := by
  obtain ⟨c, rest, rfl, hc⟩ := h.exists_cons
  have hne (x : Char) (hx : ¬ (x = '-' ∨ '0' ≤ x ∧ x ≤ '9')) : c ≠ x := by
    rintro rfl
    exact hx hc
  refine ⟨c, rest, rfl, ?_, hne ']' (by decide), hne '\x7d' (by decide)⟩
  simp [isSpace, hne ' ' (by decide), hne '\n' (by decide), hne '\t' (by decide), hne '\r' (by decide)]

/-- What starts like a number is read as one. -/
theorem readValue_number (depth : ℕ) {cs rest : List Char} {c : Char} (hskip : skip cs = c :: rest)
    (hc : c = '-' ∨ '0' ≤ c ∧ c ≤ '9') :
    readValue depth cs = (readNumeral (c :: rest)).bind fun r => (ofNumeral? r.1).map (·, r.2) := by
  have hne (x : Char) (hx : ¬ (x = '-' ∨ '0' ≤ x ∧ x ≤ '9')) : c ≠ x := by
    rintro rfl
    exact hx hc
  rw [readValue.eq_def, hskip]
  split
  · rename_i heq
    exact absurd (List.cons.inj heq).1 (hne 'n' (by decide))
  · rename_i heq
    exact absurd (List.cons.inj heq).1 (hne 't' (by decide))
  · rename_i heq
    exact absurd (List.cons.inj heq).1 (hne 'f' (by decide))
  · rename_i heq
    exact absurd (List.cons.inj heq).1 (hne '"' (by decide))
  · rename_i heq
    exact absurd (List.cons.inj heq).1 (hne '[' (by decide))
  · rename_i heq
    exact absurd (List.cons.inj heq).1 (hne '\x7b' (by decide))
  · cases readNumeral (c :: rest) with
    | none => rfl
    | some r =>
      simp only [Option.bind_eq_bind, Option.bind_some]
      cases ofNumeral? r.1 <;> rfl

/-- The items of a list that is not empty. -/
theorem readValue_list {depth : ℕ} {cs inner text : List Char} (hskip : skip cs = '[' :: inner)
    (hinner : skip inner = text) (hc : ∀ rest, text ≠ ']' :: rest) :
    readValue (depth + 1) cs =
      (readSeparated (readValue depth) ']' text.length text).map fun r => (.list r.1, r.2) := by
  rw [readValue.eq_def, hskip]
  simp only [hinner, readItems_eq]
  cases readSeparated (readValue depth) ']' text.length text <;> rfl

/-- The members of an object that is not empty. -/
theorem readValue_object {depth : ℕ} {cs inner text : List Char} (hskip : skip cs = '\x7b' :: inner)
    (hinner : skip inner = text) (hc : ∀ rest, text ≠ '\x7d' :: rest) :
    readValue (depth + 1) cs =
      (readSeparated (readMember (readValue depth)) '\x7d' text.length text).map fun r => (ofMembers r.1, r.2) := by
  rw [readValue.eq_def, hskip]
  simp only [hinner, readMembers_eq]
  cases readSeparated (readMember (readValue depth)) '\x7d' text.length text <;> rfl

theorem Starts.append_ne {text : List Char} (h : Starts text) (rest rest' : List Char) :
    text ++ rest ≠ ']' :: rest' ∧ text ++ rest ≠ '\x7d' :: rest' := by
  obtain ⟨c, tail, rfl, -, hbracket, hbrace⟩ := h
  exact ⟨fun heq => hbracket (List.cons.inj heq).1, fun heq => hbrace (List.cons.inj heq).1⟩

theorem Member.starts {P : Draft → List Char → Prop} {m : String × Draft} {cs : List Char} (h : Member P m cs) :
    Starts cs := by
  cases h
  exact ⟨_, _, rfl, by decide, by decide, by decide⟩

namespace Draft

variable {a : Draft} {text b rest : List Char} {depth : ℕ}

theorem Spells.starts (h : a.Spells text) : Starts text := by
  cases h with
  | integer hi => exact hi.written.starts
  | real hw _ => exact hw.starts
  | _ => exact ⟨_, _, rfl, by decide, by decide, by decide⟩

theorem skip_spelt (hb : Blank b) (h : Starts text) (rest : List Char) : skip (b ++ text ++ rest) = text ++ rest := by
  obtain ⟨c, cs, rfl, hspace, -⟩ := h
  rw [List.append_assoc, skip_append hb, List.cons_append, skip_cons hspace]

/-- A draft without real numbers is read in front of whatever ends it, if its nesting is within the limit,
and not at all otherwise. -/
theorem Spells.readValue (h : a.Spells text) (ha : a.Integral) (hb : Blank b) (hrest : Ends rest) :
    readValue depth (b ++ text ++ rest) = (a.document? depth).map (·, rest) := by
  induction depth using Nat.strong_induction_on generalizing a text b rest with
  | h depth ih =>
    have hskip := skip_spelt hb h.starts rest
    cases h with
    | null =>
      rw [Json.readValue.eq_def, hskip]
      simp [document?]
    | true =>
      rw [Json.readValue.eq_def, hskip]
      simp [document?]
    | false =>
      rw [Json.readValue.eq_def, hskip]
      simp [document?]
    | @integer i cs hi =>
      obtain ⟨c, cs, rfl, hc⟩ := hi.written.exists_cons
      obtain ⟨n, hn, hvalue⟩ := readNumeral_of_literal hi hrest
      rw [List.cons_append] at hskip hn
      rw [readValue_number depth hskip hc, hn, Option.bind_some, hvalue]
      simp [document?]
    | real => cases ha
    | @text s cs hs =>
      have hread : readText (cs ++ '"' :: rest) = some (s, rest) := readText_eq_some_iff.2 ⟨cs, hs, rfl⟩
      rw [Json.readValue.eq_def, hskip]
      simp [hread, document?]
    | @emptyList b' hb' =>
      have hclose : skip (b' ++ ']' :: rest) = ']' :: rest := by rw [skip_append hb', skip_cons (by decide)]
      rw [Json.readValue.eq_def, hskip]
      cases depth <;> simp [hclose, document?]
    | @emptyObject b' hb' =>
      have hclose : skip (b' ++ '\x7d' :: rest) = '\x7d' :: rest := by rw [skip_append hb', skip_cons (by decide)]
      rw [Json.readValue.eq_def, hskip]
      cases depth <;> simp [hclose, document?, ofMembers]
    | @list items cs hitems =>
      cases depth with
      | zero =>
        rw [Json.readValue.eq_def, hskip]
        simp [document?]
      | succ depth =>
        cases ha with
        | list ha =>
          obtain ⟨trimmed, htrimmed, hstarts, htail⟩ := hitems.exists_skip fun _ _ => Spells.starts
          have hopen : skip (b ++ ('[' :: cs ++ [']']) ++ rest) = '[' :: (cs ++ ']' :: rest) := by simpa using hskip
          have hlength := htrimmed.length_le
          rw [readValue_list hopen (htail _) fun rest' => (hstarts.append_ne _ rest').1,
            readSeparated_of_separated (f := document? depth) closes_bracket htrimmed
            (fun x hx b cs rest hb hcs hrest => ih depth (Nat.lt_succ_self _) hcs (ha x hx) hb hrest)
            (by simp only [List.length_append, List.length_cons] at hlength ⊢; omega)]
          simp [document?, Function.comp_def]
    | @object members cs hmembers =>
      cases depth with
      | zero =>
        rw [Json.readValue.eq_def, hskip]
        simp [document?]
      | succ depth =>
        cases ha with
        | object ha =>
          obtain ⟨trimmed, htrimmed, hstarts, htail⟩ := hmembers.exists_skip fun _ _ => Member.starts
          have hopen : skip (b ++ ('\x7b' :: cs ++ ['\x7d']) ++ rest) = '\x7b' :: (cs ++ '\x7d' :: rest) := by
            simpa using hskip
          have hlength := htrimmed.length_le
          rw [readValue_object hopen (htail _) fun rest' => (hstarts.append_ne _ rest').2,
            readSeparated_of_separated (f := fun m => (document? depth m.2).map (m.1, ·)) closes_brace htrimmed
              (fun m hm b cs rest hb hcs hrest => readMember_of_member hb hcs fun b cs hb hcs =>
                ih depth (Nat.lt_succ_self _) hcs (ha m hm) hb hrest)
              (by simp only [List.length_append, List.length_cons] at hlength ⊢; omega)]
          simp [document?, Function.comp_def]

/-- Whatever is read is spelled by a draft. -/
theorem exists_spells {j : Json} {cs : List Char} (h : readValue depth cs = some (j, rest)) :
    ∃ b text a, Blank b ∧ Spells a text ∧ cs = b ++ text ++ rest := by
  induction depth using Nat.strong_induction_on generalizing cs rest j with
  | h depth ih =>
    obtain ⟨b, hb, hcs⟩ := exists_blank cs
    have spelt {text : List Char} {a : Draft} (ha : Spells a text) (hskip : skip cs = text ++ rest) :
        ∃ b text a, Blank b ∧ Spells a text ∧ cs = b ++ text ++ rest :=
      ⟨b, text, a, hb, ha, by rw [List.append_assoc, ← hskip, ← hcs]⟩
    unfold Json.readValue at h
    split at h
    · rename_i hskip
      cases h
      exact spelt .null hskip
    · rename_i hskip
      cases h
      exact spelt .true hskip
    · rename_i hskip
      cases h
      exact spelt .false hskip
    · rename_i hskip
      obtain ⟨⟨s, rest'⟩, hs, h⟩ := Option.bind_eq_some_iff.1 h
      cases h
      obtain ⟨text, htext, rfl⟩ := readText_eq_some_iff.1 hs
      exact spelt (.text htext) (by rw [hskip]; simp)
    · rename_i inner hskip
      obtain ⟨b', hb', hinner⟩ := exists_blank inner
      split at h
      · cases h
      · rename_i depth
        split at h
        · rename_i hclose
          cases h
          rw [hclose] at hinner
          exact spelt (.emptyList hb') (by rw [hskip, hinner]; simp)
        · obtain ⟨⟨items, rest'⟩, hitems, h⟩ := Option.bind_eq_some_iff.1 h
          cases h
          rw [readItems_eq] at hitems
          obtain ⟨xs, text, hxs, htext⟩ :=
            separated_of_readSeparated (fun _ _ _ => ih depth (Nat.lt_succ_self _)) hitems
          exact spelt (.list (hxs.blank hb')) (by rw [hskip, hinner, htext]; simp)
    · rename_i inner hskip
      obtain ⟨b', hb', hinner⟩ := exists_blank inner
      split at h
      · cases h
      · rename_i depth
        split at h
        · rename_i hclose
          cases h
          rw [hclose] at hinner
          exact spelt (.emptyObject hb') (by rw [hskip, hinner]; simp)
        · obtain ⟨⟨members, rest'⟩, hmembers, h⟩ := Option.bind_eq_some_iff.1 h
          cases h
          rw [readMembers_eq] at hmembers
          obtain ⟨xs, text, hxs, htext⟩ := separated_of_readSeparated
            (fun _ _ _ => member_of_readMember fun _ _ _ => ih depth (Nat.lt_succ_self _)) hmembers
          exact spelt (.object (hxs.blank hb')) (by rw [hskip, hinner, htext]; simp)
    · obtain ⟨⟨n, rest'⟩, hn, h⟩ := Option.bind_eq_some_iff.1 h
      obtain ⟨j', hj', h⟩ := Option.bind_eq_some_iff.1 h
      cases h
      obtain ⟨text, htext, hskip⟩ := numeralSpelt_of_readNumeral hn
      by_cases hliteral : ∃ i, Literal i text
      · obtain ⟨i, hi⟩ := hliteral
        exact spelt (.integer hi) hskip
      · exact spelt (.real htext.written fun i hi => hliteral ⟨i, hi⟩) hskip

/-- A text of a draft without real numbers is read as the document of the draft. -/
theorem Says.parse? {s : String} (h : Says s a) (ha : a.Integral) : parse? s = a.document? maxDepth := by
  obtain ⟨b, cs, b', hb, hcs, hb', hs⟩ := h
  have hend : Ends b' := by
    rw [← List.append_nil b']
    exact .blank hb' (by simp [Ends])
  have hskip : skip b' = [] := by
    rw [← List.append_nil b', skip_append hb']
    rfl
  rw [Json.parse?, hs, hcs.readValue ha hb hend]
  cases a.document? maxDepth with
  | none => rfl
  | some j => simp [hskip]

/-- A text that is read says a draft. -/
theorem exists_draft {s : String} {j : Json} (h : Json.parse? s = some j) : ∃ a, Says s a := by
  obtain ⟨⟨j', rest⟩, hj', h⟩ := Option.bind_eq_some_iff.1 h
  obtain ⟨b, text, a, hb, ha, hs⟩ := exists_spells hj'
  obtain ⟨b', hb', hrest⟩ := exists_blank rest
  dsimp only at h
  split at h
  · rename_i hskip
    rw [hskip, List.append_nil] at hrest
    exact ⟨a, b, text, b', hb, ha, hb', by rw [hs, ← hrest]⟩
  · cases h

end Draft

end TradeLedger.Json
