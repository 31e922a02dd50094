/-
The canonical text of a document depends on what the document says, and on nothing else. Two drafts
say the same if they have the same items in the same order and the same value for every key, the last
one where a key comes twice. Drafts that say the same have one document and one text, others have
different ones, and the canonical text is read as the document that it was printed from.
-/
import TradeLedger.Proofs.Json.Draft
import TradeLedger.Proofs.Request

namespace TradeLedger.Json

/-! ## The values of keys -/

section Keys

variable {α : Type} {k l : String} {v : Json} {sorted members rest : List (String × Json)}

/-- The value of a key: of two members with one key the later counts. -/
def lastOf (k : String) : List (String × α) → Option α
  | [] => none
  | (l, v) :: rest => (lastOf k rest).or (if k = l then some v else none)

theorem lastOf_cons_self (v : α) (rest : List (String × α)) :
    lastOf k ((k, v) :: rest) = (lastOf k rest).or (some v) := by
  rw [lastOf, if_pos rfl]

theorem lastOf_cons_of_ne (h : k ≠ l) (v : α) (rest : List (String × α)) :
    lastOf k ((l, v) :: rest) = lastOf k rest := by
  rw [lastOf, if_neg h, Option.or_none]

theorem lastOf_append (k : String) (ms ns : List (String × α)) :
    lastOf k (ms ++ ns) = (lastOf k ns).or (lastOf k ms) := by
  induction ms with
  | nil => simp [lastOf]
  | cons m ms ih =>
    obtain ⟨l, v⟩ := m
    rw [List.cons_append, lastOf, ih, lastOf, Option.or_assoc]

theorem mem_of_lastOf {v : α} {ms : List (String × α)} (h : lastOf k ms = some v) : (k, v) ∈ ms := by
  induction ms with
  | nil => cases h
  | cons m ms ih =>
    obtain ⟨l, w⟩ := m
    rw [lastOf, Option.or_eq_some_iff] at h
    rcases h with h | ⟨-, h⟩
    · exact List.mem_cons_of_mem _ (ih h)
    · split_ifs at h with hl
      cases h
      exact hl ▸ List.mem_cons_self

theorem Increasing.tail (h : Increasing ((k, v) :: rest)) : Increasing rest := (List.pairwise_cons.1 h).2

/-- A key that comes no later than the first is not among the others. -/
theorem Increasing.lastOf_eq_none (h : Increasing ((k, v) :: rest)) (hl : ¬ Bytes.ofText k < Bytes.ofText l) :
    lastOf l rest = none := by
  obtain ⟨hfirst, -⟩ := List.pairwise_cons.1 h
  clear h
  induction rest with
  | nil => rfl
  | cons m rest ih =>
    have hm : l ≠ m.1 := by
      rintro rfl
      exact hl (hfirst m.1 (by simp))
    rw [lastOf_cons_of_ne hm]
    exact ih fun key hkey => hfirst key (List.mem_cons_of_mem _ hkey)

theorem lastOf_put (h : Increasing sorted) :
    lastOf l (put k v sorted) = if l = k then some v else lastOf l sorted := by
  induction sorted with
  | nil => simp [put, lastOf]
  | cons first rest ih =>
    obtain ⟨m, w⟩ := first
    have hput := h.put (k := k) (v := v)
    by_cases hl : l = k
    · subst hl
      rw [if_pos rfl]
      unfold put at hput ⊢
      split_ifs at hput ⊢ with hm
      · rw [lastOf_cons_self, hput.lastOf_eq_none (List.lt_irrefl _), Option.none_or]
      · rw [lastOf_cons_self, hput.lastOf_eq_none (List.lt_irrefl _), Option.none_or]
      · rw [lastOf_cons_of_ne hm, ih h.tail, if_pos rfl]
    · rw [if_neg hl] at ih ⊢
      unfold put
      split_ifs with hm
      · subst hm
        rw [lastOf_cons_of_ne hl, lastOf_cons_of_ne hl]
      · rw [lastOf_cons_of_ne hl]
      · rw [lastOf, ih h.tail, lastOf]

theorem lastOf_foldl_put (h : Increasing sorted) :
    lastOf k (members.foldl (fun sorted m => put m.1 m.2 sorted) sorted) = (lastOf k members).or (lastOf k sorted) := by
  induction members generalizing sorted with
  | nil => rfl
  | cons m members ih =>
    rw [List.foldl_cons, ih h.put, lastOf_put h, lastOf]
    split_ifs <;> cases lastOf k members <;> rfl

theorem increasing_foldl_put (h : Increasing sorted) :
    Increasing (members.foldl (fun sorted m => put m.1 m.2 sorted) sorted) := by
  induction members generalizing sorted with
  | nil => exact h
  | cons m members ih => exact ih h.put

/-- In order, members are told by the values of the keys. -/
theorem Increasing.eq_of_lastOf {xs ys : List (String × Json)} (hx : Increasing xs) (hy : Increasing ys)
    (h : ∀ k, lastOf k xs = lastOf k ys) : xs = ys := by
  induction xs generalizing ys with
  | nil =>
    cases ys with
    | nil => rfl
    | cons y ys => simpa [lastOf] using h y.1
  | cons x xs ih =>
    cases ys with
    | nil => simpa [lastOf] using h x.1
    | cons y ys =>
      obtain ⟨k, v⟩ := x
      obtain ⟨l, w⟩ := y
      have hk := h k
      rw [lastOf_cons_self, hx.lastOf_eq_none (List.lt_irrefl _), Option.none_or] at hk
      obtain rfl : k = l := by
        by_contra hne
        by_cases hlt : Bytes.ofText k < Bytes.ofText l
        · rw [lastOf_cons_of_ne hne, hy.lastOf_eq_none (List.not_lt.2 (List.le_of_lt hlt))] at hk
          cases hk
        · have hl := h l
          rw [lastOf_cons_self, lastOf_cons_of_ne (Ne.symm hne), hx.lastOf_eq_none hlt] at hl
          simp at hl
      rw [lastOf_cons_self, hy.lastOf_eq_none (List.lt_irrefl _), Option.none_or, Option.some_inj] at hk
      have htail (m : String) : lastOf m xs = lastOf m ys := by
        by_cases hm : m = k
        · subst hm
          rw [hx.lastOf_eq_none (List.lt_irrefl _), hy.lastOf_eq_none (List.lt_irrefl _)]
        · rw [← lastOf_cons_of_ne hm v xs, h, lastOf_cons_of_ne hm]
      rw [hk, ih hx.tail hy.tail htail]

theorem increasing_nil : Increasing [] := List.Pairwise.nil

theorem mem_foldl_put {m : String × Json}
    (h : m ∈ members.foldl (fun sorted m => put m.1 m.2 sorted) sorted) : m ∈ members ∨ m ∈ sorted := by
  induction members generalizing sorted with
  | nil => exact .inr h
  | cons first members ih =>
    rcases ih h with h | h
    · exact .inl (List.mem_cons_of_mem _ h)
    · exact (mem_put h).imp_left fun hm => List.mem_cons.2 (.inl hm)

/-- The members of an object: some of those it is made of, in order, and every key has the value it had. -/
theorem exists_members (members : List (String × Json)) :
    ∃ sorted, ofMembers members = .object sorted ∧ Increasing sorted ∧ (∀ m ∈ sorted, m ∈ members) ∧
      ∀ k, lastOf k sorted = lastOf k members := by
  refine ⟨_, rfl, increasing_foldl_put increasing_nil, fun m hm => ?_, fun k => ?_⟩
  · simpa using mem_foldl_put hm
  · rw [lastOf_foldl_put increasing_nil, lastOf, Option.or_none]

/-- Objects are equal if and only if every key has the same value in both. -/
theorem ofMembers_eq_iff {ms ns : List (String × Json)} :
    ofMembers ms = ofMembers ns ↔ ∀ k, lastOf k ms = lastOf k ns := by
  obtain ⟨xs, hms, hxs, -, hx⟩ := exists_members ms
  obtain ⟨ys, hns, hys, -, hy⟩ := exists_members ns
  rw [hms, hns, Json.object.injEq]
  constructor
  · rintro rfl k
    rw [← hx, hy]
  · intro h
    refine hxs.eq_of_lastOf hys fun k => ?_
    rw [hx, h, hy]

/-- Members that are in order stay as they are. -/
theorem Increasing.ofMembers_eq (h : Increasing members) : ofMembers members = .object members := by
  obtain ⟨sorted, hsorted, hincreasing, -, hlast⟩ := exists_members members
  rw [hsorted, hincreasing.eq_of_lastOf h hlast]

end Keys

/-! ## What drafts say -/

section Relations

variable {α β : Type} {R : α → β → Prop} {S : α → α → Prop}

theorem mapM_eq_some_iff {f : α → Option β} {xs : List α} {ys : List β} :
    xs.mapM f = some ys ↔ List.Forall₂ (fun x y => f x = some y) xs ys := by
  induction xs generalizing ys with
  | nil => simp [eq_comm]
  | cons x xs ih => simp [List.mapM_cons, Option.bind_eq_some_iff, List.forall₂_cons_left_iff, ih, @eq_comm _ ys]

/-- Members of one key whose values are related. -/
def Matched (R : α → β → Prop) (m : String × α) (n : String × β) : Prop := m.1 = n.1 ∧ R m.2 n.2

theorem rel_lastOf {ms : List (String × α)} {ns : List (String × β)} (h : List.Forall₂ (Matched R) ms ns) (k : String) :
    Option.Rel R (lastOf k ms) (lastOf k ns) := by
  induction h with
  | nil => exact .none
  | @cons m n ms ns hmn _ ih =>
    obtain ⟨hkey, hvalue⟩ := hmn
    rw [lastOf, lastOf, hkey]
    generalize lastOf k ms = o at ih ⊢
    generalize lastOf k ns = p at ih ⊢
    cases ih with
    | some h => exact .some h
    | none =>
      split_ifs
      · exact .some hvalue
      · exact .none

variable (hR : ∀ a a' b b', R a b → R a' b' → (b = b' ↔ S a a'))
include hR

/-- If equality on one side is a relation on the other for any two values, it is for lists of them. -/
theorem eq_iff_forall₂ {xs xs' : List α} {ys ys' : List β} (h : List.Forall₂ R xs ys) (h' : List.Forall₂ R xs' ys') :
    ys = ys' ↔ List.Forall₂ S xs xs' := by
  induction h generalizing xs' ys' with
  | nil => cases h' <;> simp
  | cons hx _ ih =>
    cases h' with
    | nil => simp
    | cons hx' hxs' => rw [List.cons.injEq, List.forall₂_cons, hR _ _ _ _ hx hx', ih hxs']

theorem eq_iff_rel {o o' : Option α} {p p' : Option β} (h : Option.Rel R o p) (h' : Option.Rel R o' p') :
    p = p' ↔ Option.Rel S o o' := by
  cases h with
  | none =>
    cases h' with
    | none => exact ⟨fun _ => .none, fun _ => rfl⟩
    | some _ => exact ⟨nofun, nofun⟩
  | some ha =>
    cases h' with
    | none => exact ⟨nofun, nofun⟩
    | some ha' =>
      rw [Option.some_inj, hR _ _ _ _ ha ha']
      refine ⟨.some, fun h => ?_⟩
      cases h with
      | some h => exact h

end Relations

namespace Draft

/-- Drafts without real numbers that say the same: what was said of a key before it came again is forgotten,
and the order of the keys does not count. -/
inductive Same : Draft → Draft → Prop where
  | null : Same .null .null
  | bool (b : Bool) : Same (.bool b) (.bool b)
  | integer (i : ℤ) : Same (.integer i) (.integer i)
  | text (s : String) : Same (.text s) (.text s)
  | list {items items' : List Draft} : List.Forall₂ Same items items' → Same (.list items) (.list items')
  | object {members members' : List (String × Draft)} :
      (∀ k, Option.Rel Same (lastOf k members) (lastOf k members')) → Same (.object members) (.object members')

theorem Same.refl {a : Draft} (h : a.Integral) : Same a a := by
  induction h with
  | null => exact .null
  | bool b => exact .bool b
  | @integer i _ _ => exact .integer i
  | text s => exact .text s
  | list _ ih => exact .list (List.forall₂_same.2 ih)
  | @object members _ ih =>
    refine .object fun k => ?_
    cases hk : lastOf k members with
    | none => exact .none
    | some a => exact .some (ih (k, a) (mem_of_lastOf hk))

theorem same_of_lastOf {ms ns : List (String × Draft)} (h : (object ms).Integral)
    (hlast : ∀ k, lastOf k ms = lastOf k ns) : Same (.object ms) (.object ns) := by
  cases Same.refl h with
  | object hsame => exact .object fun k => hlast k ▸ hsame k

/-- Members of different keys may stand in either order. -/
theorem same_swap {ms ns : List (String × Draft)} {m n : String × Draft} (h : (object (ms ++ m :: n :: ns)).Integral)
    (hne : m.1 ≠ n.1) : Same (.object (ms ++ m :: n :: ns)) (.object (ms ++ n :: m :: ns)) := by
  refine same_of_lastOf h fun k => ?_
  obtain ⟨l, v⟩ := m
  obtain ⟨l', v'⟩ := n
  simp only [lastOf_append, lastOf]
  congr 1
  split_ifs with hl' hl
  · exact absurd (hl.symm.trans hl') hne
  all_goals simp

/-- What is said of a key that comes again may be left out. -/
theorem same_overridden {ms ns : List (String × Draft)} {m : String × Draft} (h : (object (ms ++ m :: ns)).Integral)
    (hm : (lastOf m.1 ns).isSome) : Same (.object (ms ++ m :: ns)) (.object (ms ++ ns)) := by
  refine same_of_lastOf h fun k => ?_
  obtain ⟨l, v⟩ := m
  rw [lastOf_append, lastOf_append]
  by_cases hk : k = l
  · subst hk
    obtain ⟨a, ha⟩ := Option.isSome_iff_exists.1 hm
    rw [lastOf_cons_self, ha]
    rfl
  · rw [lastOf_cons_of_ne hk]

/-- The draft has this document. -/
def Denotes (depth : ℕ) (a : Draft) (j : Json) : Prop := a.document? depth = some j

/-- How the document of a draft is made of those of its parts. -/
inductive Made : ℕ → Draft → Json → Prop where
  | null {depth : ℕ} : Made depth .null .null
  | bool {depth : ℕ} (b : Bool) : Made depth (.bool b) (.bool b)
  | integer {depth : ℕ} (i : ℤ) : Made depth (.integer i) (.integer i)
  | text {depth : ℕ} (s : String) : Made depth (.text s) (.text s)
  | list {depth : ℕ} {items : List Draft} {js : List Json} : List.Forall₂ (Denotes depth) items js →
      Made (depth + 1) (.list items) (.list js)
  | object {depth : ℕ} {members : List (String × Draft)} {ms sorted : List (String × Json)} :
      List.Forall₂ (Matched (Denotes depth)) members ms → ofMembers ms = .object sorted →
      Made (depth + 1) (.object members) (.object sorted)

variable {depth : ℕ} {a b : Draft} {j k : Json}

theorem matched_iff {m : String × Draft} {n : String × Json} :
    Matched (Denotes depth) m n ↔ (m.2.document? depth).map (m.1, ·) = some n := by
  rw [Option.map_eq_some_iff]
  constructor
  · rintro ⟨hkey, hvalue⟩
    exact ⟨n.2, hvalue, by rw [hkey]⟩
  · rintro ⟨v, hv, rfl⟩
    exact ⟨rfl, hv⟩

theorem denotes_iff : Denotes depth a j ↔ Made depth a j := by
  unfold Denotes
  constructor
  · intro h
    cases a with
    | null =>
      simp only [document?, Option.some.injEq] at h
      subst h
      exact .null
    | bool b =>
      simp only [document?, Option.some.injEq] at h
      subst h
      exact .bool b
    | integer i =>
      simp only [document?, Option.some.injEq] at h
      subst h
      exact .integer i
    | real cs => simp [document?] at h
    | text s =>
      simp only [document?, Option.some.injEq] at h
      subst h
      exact .text s
    | list items =>
      cases depth with
      | zero => cases h
      | succ depth =>
        obtain ⟨js, hjs, rfl⟩ := Option.map_eq_some_iff.1 h
        exact .list (mapM_eq_some_iff.1 hjs)
    | object members =>
      cases depth with
      | zero => cases h
      | succ depth =>
        obtain ⟨ms, hms, rfl⟩ := Option.map_eq_some_iff.1 h
        exact .object ((mapM_eq_some_iff.1 hms).imp fun _ _ => matched_iff.2) rfl
  · intro h
    cases h with
    | list h => rw [document?, mapM_eq_some_iff.2 h, Option.map_some]
    | object h hj =>
      simp only [document?]
      rw [mapM_eq_some_iff.2 (h.imp fun _ _ => matched_iff.1), Option.map_some, hj]
    | _ => simp only [document?]

/-- Drafts have the same document if and only if they say the same. -/
theorem Denotes.eq_iff (ha : Denotes depth a j) (hb : Denotes depth b k) : j = k ↔ Same a b := by
  induction depth using Nat.strong_induction_on generalizing a b j k with
  | h depth ih =>
    rw [denotes_iff] at ha hb
    cases ha with
    | null =>
      cases hb with
      | null => exact ⟨fun _ => .null, fun _ => rfl⟩
      | _ => exact ⟨nofun, nofun⟩
    | bool x =>
      cases hb with
      | bool y =>
        refine ⟨fun h => ?_, fun h => ?_⟩ <;> cases h
        · exact .bool x
        · rfl
      | _ => exact ⟨nofun, nofun⟩
    | integer i =>
      cases hb with
      | integer i' =>
        refine ⟨fun h => ?_, fun h => ?_⟩ <;> cases h
        · exact .integer i
        · rfl
      | _ => exact ⟨nofun, nofun⟩
    | text s =>
      cases hb with
      | text t =>
        refine ⟨fun h => ?_, fun h => ?_⟩ <;> cases h
        · exact .text s
        · rfl
      | _ => exact ⟨nofun, nofun⟩
    | @list depth _ _ ha =>
      cases hb with
      | list hb =>
        rw [Json.list.injEq, eq_iff_forall₂ (S := Same) (fun _ _ _ _ => ih depth (Nat.lt_succ_self _)) ha hb]
        refine ⟨.list, fun h => ?_⟩
        cases h with
        | list h => exact h
      | _ => exact ⟨nofun, nofun⟩
    | @object depth _ _ _ ha hj =>
      cases hb with
      | object hb hk =>
        have hkey (key : String) := eq_iff_rel (S := Same) (fun _ _ _ _ => ih depth (Nat.lt_succ_self _))
          (rel_lastOf ha key) (rel_lastOf hb key)
        rw [← hj, ← hk, ofMembers_eq_iff, forall_congr' hkey]
        refine ⟨.object, fun h => ?_⟩
        cases h with
        | object h => exact h
      | _ => exact ⟨nofun, nofun⟩

/-! ## What is printed -/

/-- A document as the draft that it is printed as. -/
def ofJson : Json → Draft
  | .null => .null
  | .bool b => .bool b
  | .integer i => .integer i
  | .real x => .real (realText x)
  | .text s => .text s
  | .list items => .list (items.map ofJson)
  | .object members => .object (members.map fun m => (m.1, ofJson m.2))
termination_by j => sizeOf j
decreasing_by
  · decreasing_tactic
  · rename_i hm
    have hmember := List.sizeOf_lt_of_mem hm
    have hvalue : sizeOf m.2 < sizeOf m := by
      cases m
      simp
    simp only [Json.object.sizeOf_spec]
    omega

theorem literal_integerChars {i : ℤ} (hlow : -2 ^ 63 ≤ i) (hhigh : i < 2 ^ 64) : Literal i (integerChars i) := by
  have hnumber : Nat.ofDigitChars 10 (Nat.toDigits 10 i.natAbs) 0 = i.natAbs := Nat.ofDigitChars_ten_toDigits
  have hwhole := whole_toDigits i.natAbs
  unfold integerChars
  split_ifs with hneg
  · have := Literal.negative hwhole (by omega) (by omega)
    rwa [hnumber, show -(i.natAbs : ℤ) = i by omega] at this
  · have := Literal.unsigned hwhole (by omega)
    rwa [hnumber, show (i.natAbs : ℤ) = i by omega] at this

theorem exists_textSpelt {s : String} {cs : List Char} (h : Quoted s cs) :
    ∃ text, TextSpelt s.toList text ∧ cs = '"' :: text ++ ['"'] := by
  cases h with
  | quoted h => exact ⟨_, h.textSpelt, rfl⟩

theorem separated_printItems {items : List Json} (hne : items ≠ []) (h : ∀ j ∈ items, (ofJson j).Spells (print j)) :
    Separated Spells (items.map ofJson) (printItems items) := by
  induction items with
  | nil => exact absurd rfl hne
  | cons j items ih =>
    have hj := h j List.mem_cons_self
    cases items with
    | nil => simpa [printItems] using Separated.last blank_nil hj blank_nil
    | cons k items =>
      have hmore := ih (by simp) (List.forall_mem_of_forall_mem_cons h)
      simpa [printItems] using Separated.next blank_nil hj blank_nil hmore

theorem member_printed {k : String} {v : Json} (h : (ofJson v).Spells (print v)) :
    Member Spells (k, ofJson v) (quoted k ++ ':' :: print v) := by
  obtain ⟨text, htext, hk⟩ := exists_textSpelt (quoted_quoted k)
  rw [hk]
  simpa using Member.member htext blank_nil blank_nil h

theorem separated_printMembers {members : List (String × Json)} (hne : members ≠ [])
    (h : ∀ m ∈ members, (ofJson m.2).Spells (print m.2)) :
    Separated (Member Spells) (members.map fun m => (m.1, ofJson m.2)) (printMembers members) := by
  induction members with
  | nil => exact absurd rfl hne
  | cons m members ih =>
    obtain ⟨k, v⟩ := m
    have hv : Member Spells (k, ofJson v) _ := member_printed (h (k, v) List.mem_cons_self)
    cases members with
    | nil => simpa [printMembers] using Separated.last blank_nil hv blank_nil
    | cons n members =>
      have hmore := ih (by simp) (List.forall_mem_of_forall_mem_cons h)
      simpa [printMembers] using Separated.next blank_nil hv blank_nil hmore

theorem forall_of_forall₂ {α β : Type} {R : α → β → Prop} {P : α → Prop} {Q : β → Prop} {xs : List α} {ys : List β}
    (h : List.Forall₂ R xs ys) (hxs : ∀ x ∈ xs, P x) (hQ : ∀ x y, R x y → P x → Q y) : ∀ y ∈ ys, Q y := by
  induction h with
  | nil => simp
  | cons hxy _ ih =>
    rw [List.forall_mem_cons] at hxs ⊢
    exact ⟨hQ _ _ hxy hxs.1, ih hxs.2⟩

/-- What is printed of the document of a draft spells a draft with that document. -/
theorem Denotes.print (h : Denotes depth a j) (ha : a.Integral) :
    (ofJson j).Spells (print j) ∧ (ofJson j).Integral ∧ Denotes depth (ofJson j) j := by
  induction depth using Nat.strong_induction_on generalizing a j with
  | h depth ih =>
    rw [denotes_iff] at h ⊢
    cases h with
    | null =>
      rw [ofJson, Json.print]
      exact ⟨.null, .null, .null⟩
    | bool b =>
      rw [ofJson]
      cases b with
      | true => exact ⟨.true, .bool _, .bool _⟩
      | false => exact ⟨.false, .bool _, .bool _⟩
    | integer i =>
      rw [ofJson, Json.print]
      cases ha with
      | integer hlow hhigh => exact ⟨.integer (literal_integerChars hlow hhigh), .integer hlow hhigh, .integer i⟩
    | text s =>
      obtain ⟨text, htext, hs⟩ := exists_textSpelt (quoted_quoted s)
      rw [ofJson, Json.print, hs]
      exact ⟨.text htext, .text s, .text s⟩
    | @list depth items js h =>
      cases ha with
      | list ha =>
        have hjs := forall_of_forall₂ h ha fun _ _ => ih depth (Nat.lt_succ_self _)
        rw [ofJson, Json.print]
        refine ⟨?_, .list ?_, .list ?_⟩
        · by_cases hnil : js = []
          · subst hnil
            exact .emptyList blank_nil
          · exact .list (separated_printItems hnil fun j hj => (hjs j hj).1)
        · exact List.forall_mem_map.2 fun j hj => (hjs j hj).2.1
        · rw [List.forall₂_map_left_iff, List.forall₂_same]
          exact fun j hj => (hjs j hj).2.2
    | @object depth members ms sorted h hsorted =>
      cases ha with
      | object ha =>
        obtain ⟨sorted', hsorted', hincreasing, hmem, -⟩ := exists_members ms
        obtain rfl := Json.object.inj (hsorted'.symm.trans hsorted)
        have hms := forall_of_forall₂ h ha fun _ _ hm => ih depth (Nat.lt_succ_self _) hm.2
        rw [ofJson, Json.print]
        refine ⟨?_, .object ?_, .object ?_ hincreasing.ofMembers_eq⟩
        · by_cases hnil : sorted' = []
          · subst hnil
            exact .emptyObject blank_nil
          · exact .object (separated_printMembers hnil fun m hm => (hms m (hmem m hm)).1)
        · exact List.forall_mem_map.2 fun m hm => (hms m (hmem m hm)).2.1
        · rw [List.forall₂_map_left_iff, List.forall₂_same]
          exact fun m hm => ⟨rfl, (hms m (hmem m hm)).2.2⟩

/-- The canonical text of a document without real numbers is read as that document. -/
theorem parse?_canonical {s : String} {j : Json} (hs : parse? s = some j) (ha : Says s a) (hintegral : a.Integral) :
    parse? j.canonical = some j := by
  have hj : Denotes maxDepth a j := (ha.parse? hintegral).symm.trans hs
  obtain ⟨hspells, hprinted, hdenotes⟩ := hj.print hintegral
  have htext : Says j.canonical (ofJson j) :=
    ⟨[], print j, [], blank_nil, hspells, blank_nil, by simp [Json.canonical]⟩
  exact (htext.parse? hprinted).trans hdenotes

end Draft

theorem document_eq {field : String} {j : Json} (h : j ≠ .null) : Field.document field j = .ok j.canonical := by
  cases j <;> first | rfl | exact absurd rfl h

/-- A text that is read says a draft. If the draft has no real numbers, the text that is kept of the document
is read as that document again, and it is the one that is kept of another such document exactly if both say
the same. -/
theorem document_canonical (field : String) {s : String} {j : Json} (hs : parse? s = some j) (hj : j ≠ .null) :
    (∃ a, Draft.Says s a) ∧ ∀ a, Draft.Says s a → a.Integral →
      ∃ text, Field.document field j = .ok text ∧ parse? text = some j ∧
        ∀ t k b, parse? t = some k → k ≠ .null → Draft.Says t b → b.Integral →
          (Field.document field k = .ok text ↔ a.Same b) := by
  refine ⟨Draft.exists_draft hs, fun a ha hintegral => ?_⟩
  have hparse := Draft.parse?_canonical hs ha hintegral
  refine ⟨j.canonical, document_eq hj, hparse, fun t k b ht hk hb hintegral' => ?_⟩
  have hparse' := Draft.parse?_canonical ht hb hintegral'
  have hsame : j = k ↔ a.Same b := Draft.Denotes.eq_iff ((ha.parse? hintegral).symm.trans hs)
    ((hb.parse? hintegral').symm.trans ht)
  rw [document_eq hk, Except.ok.injEq, ← hsame]
  constructor
  · intro h
    rw [h, hparse, Option.some_inj] at hparse'
    exact hparse'
  · rintro rfl
    rfl

/-! Two spellings of one document. In the first the key comes twice, and what was said of it at first is
forgotten; in the second it is escaped. -/

def repeated : Draft := .object [("a", .text "x"), ("a", .integer 1)]

def single : Draft := .object [("a", .integer 1)]

theorem spells_one : Draft.Spells (.integer 1) ['1'] := by
  have hwhole : Whole ['1'] := ⟨⟨by simp, List.forall_mem_singleton.2 (by decide)⟩, nofun⟩
  exact .integer (.unsigned hwhole (by decide))

theorem says_repeated : Draft.Says " \x7b\"a\":\"x\",\"a\":1\x7d" repeated := by
  have plain {c : Char} (h : c = 'a' ∨ c = 'x') : TextSpelt [c] [c] := by
    rcases h with rfl | rfl <;> exact .cons (.char (.plain (by decide) (by decide) (by decide))) .nil
  have hfirst : Member Draft.Spells ("a", .text "x") _ :=
    .member (plain (.inl rfl)) blank_nil blank_nil (.text (plain (.inr rfl)))
  have hagain : Member Draft.Spells ("a", .integer 1) _ := .member (plain (.inl rfl)) blank_nil blank_nil spells_one
  have hmembers := Separated.next blank_nil hfirst blank_nil (.last blank_nil hagain blank_nil)
  exact ⟨[' '], _, [], by simp [Blank, isSpace], .object hmembers, blank_nil, rfl⟩

theorem says_single : Draft.Says "\x7b\"\\u0061\":1\x7d" single := by
  have hkey : TextSpelt "a".toList _ :=
    .cons (.unit (.unit (show unit? '0' '0' '6' '1' = some 'a'.toNat by decide))) .nil
  have hmember : Member Draft.Spells ("a", .integer 1) _ := .member hkey blank_nil blank_nil spells_one
  exact ⟨[], _, [], blank_nil, .object (.last blank_nil hmember blank_nil), blank_nil, rfl⟩

theorem integral_repeated : repeated.Integral := by
  refine .object fun m hm => ?_
  rcases List.mem_pair.1 hm with rfl | rfl
  · exact .text "x"
  · exact .integer (by norm_num) (by norm_num)

theorem integral_single : single.Integral := by
  refine .object fun m hm => ?_
  rw [List.mem_singleton.1 hm]
  exact .integer (by norm_num) (by norm_num)

theorem document_canonical_repeated :
    parse? " \x7b\"a\":\"x\",\"a\":1\x7d" = some (.object [("a", .integer 1)]) ∧
      parse? "\x7b\"\\u0061\":1\x7d" = some (.object [("a", .integer 1)]) ∧
      ∃ text, Field.document "reasoning" (.object [("a", .integer 1)]) = .ok text ∧
        parse? text = some (.object [("a", .integer 1)]) ∧ repeated.Same single := by
  have hs : parse? " \x7b\"a\":\"x\",\"a\":1\x7d" = some (.object [("a", .integer 1)]) :=
    (says_repeated.parse? integral_repeated).trans rfl
  have ht : parse? "\x7b\"\\u0061\":1\x7d" = some (.object [("a", .integer 1)]) :=
    (says_single.parse? integral_single).trans rfl
  obtain ⟨-, h⟩ := document_canonical "reasoning" hs nofun
  obtain ⟨text, htext, hparse, hsame⟩ := h repeated says_repeated integral_repeated
  exact ⟨hs, ht, text, htext, hparse, (hsame _ _ single ht nofun says_single integral_single).1 htext⟩

end TradeLedger.Json
