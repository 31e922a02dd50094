/-
Laws of codecs, kept by every way to put codecs together. A codec is `Faithful` to values if what is
written for one of them is read back from in front of any octets, if what is written for two of them
tells them apart whatever follows, and if reading looks at nothing behind what it takes. Decimals
come back without the sign of a zero, so what is read back is a function of what was written.

A length takes eight octets, so a string of octets is read back if there are fewer than `2 ^ 64`.
-/
import Mathlib.Tactic
import TradeLedger.Codec
import TradeLedger.Proofs.Decimal.Text

namespace TradeLedger.Codec

variable {α β : Type}

/-! ## The laws -/

/-- What is written for `x` reads as `y`, whatever follows it. -/
def ReadsAs (c : Codec α) (x y : α) : Prop := ∀ z, c.read (c.write x ++ z) = .ok (y, z)

/-- What is written for `x` and for `y` starts one string of octets only if they are one value. -/
def TellsApart (c : Codec α) (x y : α) : Prop := ∀ z z', c.write x ++ z = c.write y ++ z' → x = y ∧ z = z'

/-- What can be read, reads the same whatever follows it. -/
def Stops (c : Codec α) : Prop := ∀ b x rest, c.read b = .ok (x, rest) → ∀ z, c.read (b ++ z) = .ok (x, rest ++ z)

/-- The codec is true to the values of `P`, each of which it reads back as `f` of it. -/
structure Faithful (c : Codec α) (P : α → Prop) (f : α → α) : Prop where
  reads : ∀ x, P x → ReadsAs c x (f x)
  apart : ∀ x y, P x → P y → TellsApart c x y
  stops : Stops c

/-- Whatever is read takes at least `n` octets. -/
def Consumes (c : Codec α) (n : Nat) : Prop :=
  ∀ b x rest, c.read b = .ok (x, rest) → n + rest.length ≤ b.length

theorem bind_eq_ok {ε : Type} {x : Except ε α} {f : α → Except ε β} {b : β} (h : (x >>= f) = .ok b) :
    ∃ a, x = .ok a ∧ f a = .ok b := by
  cases x with
  | error e => cases h
  | ok a => exact ⟨a, rfl, h⟩

/-- What is read first is passed on. -/
theorem bind_ok {ε : Type} {x : Except ε α} {f : α → Except ε β} {a : α} (h : x = .ok a) : (x >>= f) = f a := by
  rw [h]
  rfl

section Consequences

variable {c : Codec α} {P : α → Prop} {f : α → α}

/-- Values that come back unchanged are told apart by coming back. -/
theorem Faithful.of_reads (hr : ∀ x, P x → ReadsAs c x x) (hs : Stops c) : Faithful c P id where
  reads := hr
  apart x y hx hy z z' h := by
    have hread := hr x hx z
    rw [h, hr y hy z'] at hread
    cases hread
    exact ⟨rfl, rfl⟩
  stops := hs

theorem Faithful.congr {Q : α → Prop} {g : α → α} (h : Faithful c P f) (hP : ∀ x, Q x → P x)
    (hfg : ∀ x, f x = g x) : Faithful c Q g where
  reads x hx := hfg x ▸ h.reads x (hP x hx)
  apart x y hx hy := h.apart x y (hP x hx) (hP y hy)
  stops := h.stops

/-- Nothing is read from less than what was written. -/
theorem Faithful.read_short (h : Faithful c P f) {x : α} (hx : P x) {b s : Bytes} (hb : c.write x = b ++ s)
    (hs : s ≠ []) : ∃ damage, c.read b = .error damage := by
  cases hr : c.read b with
  | error damage => exact ⟨damage, rfl⟩
  | ok p =>
    obtain ⟨y, rest⟩ := p
    -- with the rest of what was written there, nothing would be left over
    have hwhole := h.reads x hx []
    rw [List.append_nil, hb, h.stops b y rest hr s] at hwhole
    cases List.append_eq_nil_iff.1 (congrArg Prod.snd (Except.ok.inj hwhole)) with
    | intro _ hnil => exact absurd hnil hs

end Consequences

/-! ## Codecs made of others -/

section Compounds

variable {c : Codec α} {d : Codec β} {P : α → Prop} {Q : β → Prop} {f : α → α} {g : β → β}

theorem Stops.refine (h : Stops c) (build : α → Except Damage β) (back : β → α) : Stops (c.refine build back) := by
  intro b y rest hy z
  obtain ⟨⟨x, r⟩, hx, he⟩ := bind_eq_ok hy
  obtain ⟨y', hbuild, he⟩ := bind_eq_ok he
  cases he
  exact (bind_ok (h b x rest hx z)).trans (bind_ok hbuild)

theorem Faithful.refine (h : Faithful c P f) {build : α → Except Damage β} {back : β → α}
    (hP : ∀ y, Q y → P (back y)) (hbuild : ∀ y, Q y → build (f (back y)) = .ok (g y))
    (hback : ∀ x y, Q x → Q y → back x = back y → x = y) : Faithful (c.refine build back) Q g where
  reads y hy z := (bind_ok (h.reads _ (hP y hy) z)).trans (bind_ok (hbuild y hy))
  apart x y hx hy z z' he := by
    obtain ⟨hxy, hz⟩ := h.apart _ _ (hP x hx) (hP y hy) z z' he
    exact ⟨hback x y hx hy hxy, hz⟩
  stops := h.stops.refine build back

theorem Faithful.via (h : Faithful c P f) {build : α → β} {back : β → α} (hP : ∀ y, Q y → P (back y))
    (hbuild : ∀ y, build (f (back y)) = g y) (hback : ∀ y, build (back y) = y) : Faithful (c.via build back) Q g where
  reads y hy z := by
    refine (bind_ok (h.reads _ (hP y hy) z)).trans ?_
    show Except.ok (build (f (back y)), z) = _
    rw [hbuild]
  apart x y hx hy z z' he := by
    obtain ⟨hxy, hz⟩ := h.apart _ _ (hP x hx) (hP y hy) z z' he
    exact ⟨by rw [← hback x, hxy, hback], hz⟩
  stops b y rest hy z := by
    obtain ⟨⟨x, r⟩, hx, he⟩ := bind_eq_ok hy
    cases he
    exact bind_ok (h.stops b x rest hx z)

theorem Faithful.both (hc : Faithful c P f) (hd : Faithful d Q g) :
    Faithful (c.both d) (fun p => P p.1 ∧ Q p.2) (fun p => (f p.1, g p.2)) where
  reads p hp z := by
    have hfirst := hc.reads _ hp.1 (d.write p.2 ++ z)
    rw [← List.append_assoc] at hfirst
    exact (bind_ok hfirst).trans (bind_ok (hd.reads _ hp.2 z))
  apart p q hp hq z z' he := by
    have he : c.write p.1 ++ d.write p.2 ++ z = c.write q.1 ++ d.write q.2 ++ z' := he
    rw [List.append_assoc, List.append_assoc] at he
    obtain ⟨h1, he⟩ := hc.apart _ _ hp.1 hq.1 _ _ he
    obtain ⟨h2, hz⟩ := hd.apart _ _ hp.2 hq.2 _ _ he
    exact ⟨Prod.ext h1 h2, hz⟩
  stops b p rest hp z := by
    obtain ⟨⟨x, r⟩, hx, hp⟩ := bind_eq_ok hp
    obtain ⟨⟨y, r'⟩, hy, he⟩ := bind_eq_ok hp
    cases he
    exact (bind_ok (hc.stops b x r hx z)).trans (bind_ok (hd.stops r y rest hy z))

end Compounds

/-! ## Numbers and tags -/

theorem read_natural_of_lt {size : Nat} {b : Bytes} (h : b.length < size) : (natural size).read b = .error .ended :=
  if_pos h

theorem read_natural {size : Nat} {b : Bytes} (h : size ≤ b.length) :
    (natural size).read b = .ok (Bytes.ofLittleEndian (b.take size), b.drop size) :=
  if_neg (by omega)

theorem stops_natural (size : Nat) : Stops (natural size) := by
  intro b n rest h z
  rcases Nat.lt_or_ge b.length size with hl | hl
  · rw [read_natural_of_lt hl] at h; cases h
  · rw [read_natural hl] at h
    cases h
    rw [read_natural (by rw [List.length_append]; omega), List.take_append_of_le_length hl,
      List.drop_append_of_le_length hl]

theorem faithful_natural (size : Nat) : Faithful (natural size) (· < 256 ^ size) id := by
  refine .of_reads (fun n hn z => ?_) (stops_natural size)
  have hl : (Bytes.littleEndian size n).length = size := Bytes.length_littleEndian size n
  show (natural size).read (Bytes.littleEndian size n ++ z) = _
  rw [read_natural (by rw [List.length_append]; omega), List.take_left' hl, List.drop_left' hl,
    Bytes.ofLittleEndian_littleEndian, Nat.mod_eq_of_lt hn]

theorem faithful_unsigned : Faithful unsigned (fun _ => True) id :=
  (faithful_natural 8).via (fun n _ => n.toNat_lt) (fun _ => UInt64.ofNat_toNat) (fun _ => UInt64.ofNat_toNat)

theorem faithful_signed : Faithful signed (fun _ => True) id :=
  faithful_unsigned.via (fun _ _ => trivial) Int64.toInt64_toUInt64 Int64.toInt64_toUInt64

/-- A tag has four octets. -/
theorem faithful_oneOf [DecidableEq α] {all : List α} (hall : ∀ x, x ∈ all) (hl : all.length ≤ 256 ^ 4) :
    Faithful (oneOf all) (fun _ => True) id := by
  have hi (x : α) : all.idxOf x < all.length := List.idxOf_lt_length_of_mem (hall x)
  refine (faithful_natural 4).refine (fun x _ => (hi x).trans_le hl) (fun x _ => ?_) fun x y _ _ h => ?_
  · simp only [id, List.getElem?_eq_getElem (hi x), List.getElem_idxOf (hi x)]
  · exact (List.idxOf_inj (hall x)).1 h

theorem faithful_bool : Faithful bool (fun _ => True) id := by
  refine (faithful_natural 1).refine (fun b _ => ?_) (fun b _ => ?_) fun x y _ _ h => ?_
  · cases b <;> decide
  · cases b <;> rfl
  · cases x <;> cases y <;> first | rfl | exact absurd h (by decide)

/-! ## Strings of octets -/

theorem stops_counted (damage : Damage) : Stops (counted damage) := by
  intro b x rest h z
  obtain ⟨⟨n, r⟩, hn, h⟩ := bind_eq_ok h
  refine (bind_ok (stops_natural 8 b n r hn z)).trans ?_
  show (if (r ++ z).length < n then Except.error damage else .ok ((r ++ z).take n, (r ++ z).drop n)) = _
  replace h : (if r.length < n then Except.error damage else .ok (r.take n, r.drop n)) = .ok (x, rest) := h
  split_ifs at h with hlt
  cases h
  rw [if_neg (by rw [List.length_append]; omega), List.take_append_of_le_length (by omega),
    List.drop_append_of_le_length (by omega)]

theorem faithful_counted (damage : Damage) : Faithful (counted damage) (·.length < 256 ^ 8) id := by
  refine .of_reads (fun b hb z => ?_) (stops_counted damage)
  have hlength := (faithful_natural 8).reads _ hb (b ++ z)
  rw [← List.append_assoc] at hlength
  refine (bind_ok hlength).trans ?_
  show (if (b ++ z).length < b.length then Except.error damage
    else Except.ok ((b ++ z).take b.length, (b ++ z).drop b.length)) = _
  rw [if_neg (by simp)]
  simp

theorem faithful_octets : Faithful octets (·.length < 256 ^ 8) id := faithful_counted _

theorem faithful_text : Faithful text (fun s => (Bytes.ofText s).length < 256 ^ 8) id := by
  refine (faithful_counted _).refine (fun _ h => h) (fun s _ => ?_) fun s t _ _ h => ?_
  · simp only [id, Bytes.toText?_ofText]
  · have hs := Bytes.toText?_ofText s
    rw [h, Bytes.toText?_ofText t] at hs
    exact (Option.some.inj hs).symm

theorem faithful_uuid : Faithful uuid (fun _ => True) id := by
  refine (faithful_counted _).refine (fun u _ => ?_) (fun u _ => ?_) fun u v _ _ h => Uuid.ext h
  · rw [u.length_bytes]; decide
  · simp only [id, Uuid.ofBytes?_bytes]

/-- A decimal comes back with its number and its scale. Only a zero may lose its sign, and even then
two decimals are not written alike. -/
theorem faithful_decimal : Faithful decimal (fun _ => True) Decimal.unsignedZero := by
  refine faithful_text.refine (fun d _ => ?_) (fun d _ => ?_) fun d e _ _ h => Decimal.text_inj.1 h
  · have := d.length_text_le
    omega
  · simp only [id, Decimal.ofText?_text]

/-! ## Values that need not be there -/

theorem faithful_optional {c : Codec α} {P : α → Prop} {f : α → α} (h : Faithful c P f) :
    Faithful c.optional (fun o => ∀ x ∈ o, P x) (Option.map f) := by
  have hn := faithful_natural 1
  refine ⟨fun o ho z => ?_, fun o o' ho ho' z z' he => ?_, fun b o rest hr z => ?_⟩
  · cases o with
    | none => exact bind_ok (hn.reads 0 (by decide) z)
    | some x =>
      have htag := hn.reads 1 (by decide) (c.write x ++ z)
      rw [← List.append_assoc] at htag
      exact (bind_ok htag).trans (bind_ok (h.reads x (ho x rfl) z))
  · -- the first octet says whether there is a value
    cases o with
    | none =>
      cases o' with
      | none => exact ⟨rfl, List.append_cancel_left he⟩
      | some y => exact absurd (List.cons.inj he).1 (by decide)
    | some x =>
      cases o' with
      | none => exact absurd (List.cons.inj he).1 (by decide)
      | some y =>
        obtain ⟨hxy, hz⟩ := h.apart x y (ho x rfl) (ho' y rfl) z z' (List.cons.inj he).2
        exact ⟨congrArg some hxy, hz⟩
  · obtain ⟨⟨octet, r⟩, ho, hr⟩ := bind_eq_ok hr
    refine (bind_ok (hn.stops b octet r ho z)).trans ?_
    rcases octet with _ | _ | octet
    · cases hr
      rfl
    · obtain ⟨⟨x, r'⟩, hx, he⟩ := bind_eq_ok hr
      cases he
      exact bind_ok (h.stops r x rest hx z)
    · cases hr

/-! ## Reading takes octets -/

theorem consumes_natural (size : Nat) : Consumes (natural size) size := by
  intro b n rest h
  simp only [natural] at h
  split at h
  · cases h
  · cases h
    rw [List.length_drop]
    omega

theorem Consumes.via {c : Codec α} {n : Nat} (h : Consumes c n) (f : α → β) (g : β → α) :
    Consumes (c.via f g) n := by
  intro b y rest hy
  obtain ⟨⟨x, r⟩, hx, he⟩ := bind_eq_ok hy
  cases he
  exact h b x rest hx

theorem Consumes.refine {c : Codec α} {n : Nat} (h : Consumes c n) (f : α → Except Damage β) (g : β → α) :
    Consumes (c.refine f g) n := by
  intro b y rest hy
  obtain ⟨⟨x, r⟩, hx, he⟩ := bind_eq_ok hy
  obtain ⟨y', -, he⟩ := bind_eq_ok he
  cases he
  exact h b x rest hx

theorem consumes_oneOf [DecidableEq α] (all : List α) : Consumes (oneOf all) 4 := (consumes_natural 4).refine _ _

theorem consumes_unsigned : Consumes unsigned 8 := (consumes_natural 8).via _ _

end TradeLedger.Codec
