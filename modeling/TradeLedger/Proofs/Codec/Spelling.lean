/-
What canonical octets can be read from. A decimal may be spelt in many ways, and every text that reads
as it is as good as the one it is printed as; of all else in an envelope not one octet can differ. So
what an envelope is read from is its canonical octets with the texts of decimals replaced by others,
and anything behind them.

The canonical octets of what was read give it back at once, unless a text vanished: a number below
zero was divided until no digit was left, and reads as a negative zero, of which the sign does not
come back.
-/
import TradeLedger.Proofs.Codec.Envelope
import TradeLedger.Proofs.Decimal.Vanishing

namespace TradeLedger

namespace Codec

variable {α β δ : Type}

/-! ## Pieces -/

/-- A piece of what is written: octets that stand fast, or a decimal, of which `δ` is either the decimal
itself or a text it is spelt as. -/
inductive Piece (δ : Type) where
  | fast (b : Bytes)
  | decimal (d : δ)

namespace Piece

def map {ε : Type} (f : δ → ε) : Piece δ → Piece ε
  | .fast b => .fast b
  | .decimal d => .decimal (f d)

def octets : Piece String → Bytes
  | .fast b => b
  | .decimal s => Codec.text.write s

/-- The text of a decimal piece. -/
def text? : Piece δ → Option δ
  | .fast _ => none
  | .decimal d => some d

/-- A decimal is spelt as any text that reads as it, and all else as it is. -/
inductive Spells : Piece String → Piece Decimal → Prop where
  | fast (b : Bytes) : Spells (.fast b) (.fast b)
  | decimal {s : String} {d : Decimal} : Text.Storable s → Decimal.ofText? s = some d →
      Spells (.decimal s) (.decimal d)

end Piece

/-- The octets of pieces that follow each other. -/
def joined (l : List (Piece String)) : Bytes := l.flatMap Piece.octets

/-- Every decimal as it is printed. -/
def printed (l : List (Piece Decimal)) : List (Piece String) := l.map (Piece.map Decimal.text)

/-- The texts that decimals are spelt as. -/
def texts (l : List (Piece δ)) : List δ := l.filterMap Piece.text?

/-- Each piece is spelt by the one in its place. -/
def Spells : List (Piece String) → List (Piece Decimal) → Prop := List.Forall₂ Piece.Spells

/-- What is written is the pieces of the layout, with the decimals as they are printed, and a value is
read from any spelling of its pieces, from nothing else, and whatever follows. -/
structure Laid (c : Codec α) (P : α → Prop) (layout : α → List (Piece Decimal)) : Prop where
  write : ∀ x, c.write x = joined (printed (layout x))
  read : ∀ b x rest, c.read b = .ok (x, rest) ↔ P x ∧ ∃ l, Spells l (layout x) ∧ b = joined l ++ rest

/-- Nothing is read but what would be written. -/
def Strict (c : Codec α) (P : α → Prop) : Prop := ∀ b x rest, c.read b = .ok (x, rest) → P x ∧ b = c.write x ++ rest

/-! ## Strict codecs -/

section Strict

variable {c : Codec α} {P : α → Prop} {Q : β → Prop}

theorem Strict.via (h : Strict c P) {build : α → β} {back : β → α} (hback : ∀ x, P x → back (build x) = x)
    (hP : ∀ x, P x → Q (build x)) : Strict (c.via build back) Q := by
  intro b y rest hy
  obtain ⟨⟨x, r⟩, hx, he⟩ := bind_eq_ok hy
  cases he
  obtain ⟨hPx, hb⟩ := h b x rest hx
  refine ⟨hP x hPx, ?_⟩
  show b = c.write (back (build x)) ++ rest
  rw [hback x hPx, hb]

theorem Strict.refine (h : Strict c P) {build : α → Except Damage β} {back : β → α}
    (hback : ∀ x y, P x → build x = .ok y → back y = x ∧ Q y) : Strict (c.refine build back) Q := by
  intro b y rest hy
  obtain ⟨⟨x, r⟩, hx, he⟩ := bind_eq_ok hy
  obtain ⟨y', hbuild, he⟩ := bind_eq_ok he
  cases he
  obtain ⟨hPx, hb⟩ := h b x rest hx
  obtain ⟨hyx, hQ⟩ := hback x y hPx hbuild
  refine ⟨hQ, ?_⟩
  show b = c.write (back y) ++ rest
  rw [hyx, hb]

theorem strict_natural (size : ℕ) : Strict (natural size) (· < 256 ^ size) := by
  intro b n rest h
  rcases Nat.lt_or_ge b.length size with hl | hl
  · rw [read_natural_of_lt hl] at h
    cases h
  · rw [read_natural hl] at h
    cases h
    have hlength : (b.take size).length = size := by rw [List.length_take]; omega
    have hlt := Bytes.ofLittleEndian_lt (b.take size)
    have hback := Bytes.littleEndian_ofLittleEndian (b.take size)
    rw [hlength] at hlt hback
    refine ⟨hlt, ?_⟩
    show b = Bytes.littleEndian size (Bytes.ofLittleEndian (b.take size)) ++ b.drop size
    rw [hback, List.take_append_drop]

theorem strict_unsigned : Strict unsigned (fun _ => True) :=
  (strict_natural 8).via (fun _ hn => UInt64.toNat_ofNat_of_lt' hn) fun _ _ => trivial

theorem strict_signed : Strict signed (fun _ => True) :=
  strict_unsigned.via (fun _ _ => UInt64.toUInt64_toInt64 _) fun _ _ => trivial

theorem strict_oneOf [DecidableEq α] {all : List α} (hall : all.Nodup) : Strict (oneOf all) (fun _ => True) := by
  refine (strict_natural 4).refine fun tag x _ hx => ⟨?_, trivial⟩
  split at hx
  · rename_i y hy
    cases hx
    obtain ⟨hlt, rfl⟩ := List.getElem?_eq_some_iff.1 hy
    exact hall.idxOf_getElem tag hlt
  · cases hx

theorem strict_bool : Strict bool (fun _ => True) := by
  refine (strict_natural 1).refine fun octet b _ hb => ⟨?_, trivial⟩
  rcases octet with _ | _ | octet <;> cases hb <;> rfl

theorem strict_counted (damage : Damage) : Strict (counted damage) (·.length < 256 ^ 8) := by
  intro b x rest h
  obtain ⟨⟨n, r⟩, hn, h⟩ := bind_eq_ok h
  obtain ⟨hlt, hb⟩ := strict_natural 8 b n r hn
  replace h : (if r.length < n then Except.error damage else .ok (r.take n, r.drop n)) = .ok (x, rest) := h
  split_ifs at h with hle
  cases h
  have hlength : (r.take n).length = n := by rw [List.length_take]; omega
  refine ⟨hlength.trans_lt hlt, ?_⟩
  show b = (natural 8).write (r.take n).length ++ r.take n ++ r.drop n
  rw [hlength, List.append_assoc, List.take_append_drop, hb]

theorem strict_octets : Strict octets (·.length < 256 ^ 8) := strict_counted _

theorem strict_text : Strict text Text.Storable := by
  refine (strict_counted _).refine fun b s hb hs => ?_
  split at hs
  · rename_i t ht
    cases hs
    have hs := Bytes.ofText_of_toText? ht
    exact ⟨hs, by rw [Text.Storable, hs]; exact hb⟩
  · cases hs

theorem strict_uuid : Strict uuid (fun _ => True) := by
  refine (strict_counted _).refine fun b u _ hu => ⟨?_, trivial⟩
  unfold Uuid.ofBytes? at hu
  split at hu
  · rename_i v hv
    cases hu
    split at hv <;> cases hv
    rfl
  · cases hu

end Strict

/-! ## Layouts -/

section Laid

variable {c : Codec α} {d : Codec β} {P : α → Prop} {Q : β → Prop} {f : α → List (Piece Decimal)}
  {g : β → List (Piece Decimal)}

/-- The layout of values without decimals. -/
def fast (c : Codec α) (x : α) : List (Piece Decimal) := [.fast (c.write x)]

/-- A value that may be missing follows the octet that says whether it does. -/
def maybe (f : α → List (Piece Decimal)) : Option α → List (Piece Decimal)
  | none => [.fast [0]]
  | some x => .fast [1] :: f x

/-- The layout of a decimal. -/
def spelt (d : Decimal) : List (Piece Decimal) := [.decimal d]

@[simp] theorem joined_append (l l' : List (Piece String)) : joined (l ++ l') = joined l ++ joined l' :=
  List.flatMap_append

@[simp] theorem printed_append (l l' : List (Piece Decimal)) : printed (l ++ l') = printed l ++ printed l' :=
  List.map_append

theorem spells_append {l : List (Piece String)} {l₁ l₂ : List (Piece Decimal)} :
    Spells l (l₁ ++ l₂) ↔ ∃ l' l'', Spells l' l₁ ∧ Spells l'' l₂ ∧ l = l' ++ l'' := by
  constructor
  · intro h
    refine ⟨l.take l₁.length, l.drop l₁.length, ?_, ?_, (List.take_append_drop _ l).symm⟩
    · exact List.forall₂_take_append l l₁ l₂ h
    · exact List.forall₂_drop_append l l₁ l₂ h
  · rintro ⟨l', l'', h', h'', rfl⟩
    exact List.rel_append h' h''

theorem Laid.congr (h : Laid c P f) {P' : α → Prop} {f' : α → List (Piece Decimal)} (hP : ∀ x, P x ↔ P' x)
    (hf : ∀ x, f x = f' x) : Laid c P' f' := by
  obtain rfl : P = P' := funext fun x => propext (hP x)
  obtain rfl : f = f' := funext hf
  exact h

theorem laid_fast (hc : Faithful c P id) (h : Strict c P) : Laid c P (fast c) where
  write x := (List.append_nil _).symm
  read b x rest := by
    constructor
    · intro hr
      obtain ⟨hP, hb⟩ := h b x rest hr
      refine ⟨hP, [.fast (c.write x)], .cons (.fast _) .nil, ?_⟩
      rw [hb]
      simp [joined, Piece.octets]
    · rintro ⟨hP, l, hl, rfl⟩
      cases hl with
      | cons hpiece hnil =>
        cases hnil
        cases hpiece
        simpa [joined, Piece.octets] using hc.reads x hP rest

theorem laid_text : Laid text Text.Storable (fast text) := laid_fast faithful_text strict_text

theorem laid_octets : Laid octets (·.length < 256 ^ 8) (fast octets) := laid_fast faithful_octets strict_octets

theorem laid_uuid : Laid uuid (fun _ => True) (fast uuid) := laid_fast faithful_uuid strict_uuid

theorem laid_unsigned : Laid unsigned (fun _ => True) (fast unsigned) := laid_fast faithful_unsigned strict_unsigned

theorem laid_signed : Laid signed (fun _ => True) (fast signed) := laid_fast faithful_signed strict_signed

theorem laid_bool : Laid bool (fun _ => True) (fast bool) := laid_fast faithful_bool strict_bool

theorem laid_oneOf [DecidableEq α] {all : List α} (hall : ∀ x, x ∈ all) (hl : all.length ≤ 256 ^ 4)
    (hnodup : all.Nodup) : Laid (oneOf all) (fun _ => True) (fast (oneOf all)) :=
  laid_fast (faithful_oneOf hall hl) (strict_oneOf hnodup)

theorem laid_decimal : Laid decimal (fun _ => True) spelt where
  write d := (List.append_nil _).symm
  read b d rest := by
    constructor
    · intro hr
      obtain ⟨⟨s, r⟩, hs, he⟩ := bind_eq_ok hr
      obtain ⟨d', hd, he⟩ := bind_eq_ok he
      cases he
      obtain ⟨hstorable, hb⟩ := strict_text b s rest hs
      dsimp only at hd
      split at hd
      · rename_i d' hd'
        cases hd
        refine ⟨trivial, [.decimal s], .cons (.decimal hstorable hd') .nil, ?_⟩
        rw [hb]
        simp [joined, Piece.octets]
      · cases hd
    · rintro ⟨-, l, hl, rfl⟩
      cases hl with
      | cons hpiece hnil =>
        cases hnil
        cases hpiece with
        | decimal hstorable hd =>
          have hs := faithful_text.reads _ hstorable rest
          refine (bind_ok (by simpa [joined, Piece.octets] using hs)).trans ?_
          simp only [hd]
          rfl

theorem Laid.both (hc : Laid c P f) (hd : Laid d Q g) :
    Laid (c.both d) (fun p => P p.1 ∧ Q p.2) (fun p => f p.1 ++ g p.2) where
  write p := by
    show c.write p.1 ++ d.write p.2 = _
    rw [hc.write, hd.write, printed_append, joined_append]
  read b p rest := by
    constructor
    · intro hp
      obtain ⟨⟨x, r⟩, hx, hp⟩ := bind_eq_ok hp
      obtain ⟨⟨y, r'⟩, hy, he⟩ := bind_eq_ok hp
      cases he
      obtain ⟨hPx, l, hl, rfl⟩ := (hc.read b x r).1 hx
      obtain ⟨hQy, l', hl', rfl⟩ := (hd.read r y _).1 hy
      refine ⟨⟨hPx, hQy⟩, l ++ l', spells_append.2 ⟨l, l', hl, hl', rfl⟩, ?_⟩
      rw [joined_append, List.append_assoc]
    · rintro ⟨⟨hPx, hQy⟩, l, hl, rfl⟩
      obtain ⟨l', l'', hl', hl'', rfl⟩ := spells_append.1 hl
      rw [joined_append, List.append_assoc]
      exact (bind_ok ((hc.read _ _ _).2 ⟨hPx, l', hl', rfl⟩)).trans
        (bind_ok ((hd.read _ _ _).2 ⟨hQy, l'', hl'', rfl⟩))

theorem Laid.via (h : Laid c P f) {build : α → β} {back : β → α} (hbuild : ∀ y, build (back y) = y)
    (hback : ∀ x, back (build x) = x) : Laid (c.via build back) (fun y => P (back y)) (fun y => f (back y)) where
  write y := h.write (back y)
  read b y rest := by
    rw [← h.read]
    constructor
    · intro hy
      obtain ⟨⟨x, r⟩, hx, he⟩ := bind_eq_ok hy
      cases he
      rw [hback]
      exact hx
    · intro hx
      refine (bind_ok hx).trans ?_
      show Except.ok (build (back y), rest) = _
      rw [hbuild]

theorem Laid.optional (h : Laid c P f) : Laid c.optional (fun o => ∀ x ∈ o, P x) (maybe f) where
  write o := by
    cases o with
    | none => rfl
    | some x =>
      show [1] ++ c.write x = joined (printed ([.fast [1]] ++ f x))
      rw [h.write, printed_append, joined_append]
      rfl
  read b o rest := by
    constructor
    · intro ho
      obtain ⟨⟨octet, r⟩, hoctet, ho⟩ := bind_eq_ok ho
      obtain ⟨-, hb⟩ := strict_natural 1 b octet r hoctet
      rcases octet with _ | _ | octet
      · cases ho
        exact ⟨fun _ hx => (Option.not_mem_none _ hx).elim, [.fast [0]], .cons (.fast _) .nil, hb⟩
      · obtain ⟨⟨x, r'⟩, hx, he⟩ := bind_eq_ok ho
        cases he
        obtain ⟨hPx, l, hl, rfl⟩ := (h.read r x _).1 hx
        refine ⟨fun y hy => ?_, .fast [1] :: l, .cons (.fast _) hl, hb⟩
        cases hy
        exact hPx
      · cases ho
    · rintro ⟨hP, l, hl, rfl⟩
      cases o with
      | none =>
        cases hl with
        | cons hpiece hnil =>
          cases hnil
          cases hpiece
          rfl
      | some x =>
        cases hl with
        | cons hpiece hl =>
          cases hpiece
          exact bind_ok ((h.read _ _ _).2 ⟨hP x rfl, _, hl, rfl⟩)

end Laid

/-! ## Texts of decimals -/

section Texts

variable {l : List (Piece String)} {l' : List (Piece Decimal)}

@[simp] theorem texts_append (l l' : List (Piece δ)) : texts (l ++ l') = texts l ++ texts l' := List.filterMap_append

@[simp] theorem texts_fast (c : Codec α) (x : α) : texts (fast c x) = [] := rfl

@[simp] theorem texts_spelt (d : Decimal) : texts (spelt d) = [d] := rfl

@[simp] theorem texts_maybe (f : α → List (Piece Decimal)) (o : Option α) :
    texts (maybe f o) = o.toList.flatMap fun x => texts (f x) := by
  cases o with
  | none => rfl
  | some x => exact (List.append_nil _).symm

/-- No text vanished exactly if every decimal that was read is without a sign on zero. -/
theorem not_vanishes_iff (h : Spells l l') :
    (∀ s ∈ texts l, ¬ Decimal.Vanishes s) ↔ ∀ d ∈ texts l', d.Signed := by
  induction h with
  | nil => simp [texts]
  | cons hpiece _ ih =>
    cases hpiece with
    | fast b => exact ih
    | decimal _ hd =>
      show (∀ s ∈ _ :: texts _, _) ↔ ∀ d ∈ _ :: texts _, _
      rw [List.forall_mem_cons, List.forall_mem_cons, ih, ← Decimal.not_signed_iff_vanishes hd, not_not]

/-- Pieces of which every text is a printed one are printed themselves. -/
theorem eq_printed (h : Spells l l') (hprinted : ∀ s ∈ texts l, ∃ d, Decimal.ofText? s = some d ∧ d.text = s) :
    l = printed l' := by
  induction h with
  | nil => rfl
  | cons hpiece _ ih =>
    cases hpiece with
    | fast b => exact congrArg _ (ih hprinted)
    | decimal _ hd =>
      obtain ⟨⟨d, hread, rfl⟩, hrest⟩ := List.forall_mem_cons.1 hprinted
      rw [hread] at hd
      cases hd
      exact congrArg _ (ih hrest)

end Texts

end Codec

open Codec

/-! ## Bodies -/

/-- The fields of a signal. -/
def Signal.layout (s : Signal) : List (Piece Decimal) :=
  [fast Codec.text s.dedupeKey, fast Codec.uuid s.correlationId, fast Codec.text s.symbol,
    fast (Codec.oneOf Side.all) s.side, maybe spelt s.price, spelt s.quantity, fast Codec.octets s.request,
    maybe (fast Codec.text) s.sourceAddress, fast Codec.bool s.authenticated].flatten

def Deliberation.layout (d : Deliberation) : List (Piece Decimal) :=
  [fast Codec.uuid d.correlationId, fast Codec.text d.model, fast Codec.text d.reasoning, spelt d.confidence,
    fast Codec.unsigned d.elapsedMillis, fast Codec.bool d.timedOut].flatten

def Execution.layout (e : Execution) : List (Piece Decimal) :=
  [fast Codec.uuid e.correlationId, fast (Codec.oneOf OrderKind.all) e.kind, fast Codec.text e.symbol,
    fast (Codec.oneOf Side.all) e.side, spelt e.quantity, maybe spelt e.price,
    maybe (fast Codec.text) e.externalOrderId, fast (Codec.oneOf OrderStatus.all) e.status].flatten

def OrderEvent.layout (e : OrderEvent) : List (Piece Decimal) :=
  [fast Codec.uuid e.executionId, fast (Codec.oneOf EventKind.all) e.kind, maybe spelt e.fillQuantity,
    maybe spelt e.fillPrice, maybe spelt e.equity, maybe (fast Codec.text) e.closedPositions,
    maybe (fast Codec.text) e.rejectionDetail, maybe (fast Codec.text) e.externalErrorCode].flatten

theorem Side.laid : Laid (oneOf Side.all) (fun _ => True) (fast (oneOf Side.all)) :=
  laid_oneOf mem_all (by decide) (by decide)

theorem Signal.laid : Laid Signal.codec (fun s => (Body.signal s).Fits) layout := by
  refine Laid.congr (Laid.via (laid_text.both <| laid_uuid.both <| laid_text.both <| Side.laid.both <|
    laid_decimal.optional.both <| laid_decimal.both <| laid_octets.both <| laid_text.optional.both laid_bool)
    (fun _ => rfl) (fun _ => rfl)) (fun s => ?_) (fun s => by simp [layout])
  simp [Body.Fits, Body.strings, Text.Storable, or_imp, forall_and]

theorem Deliberation.laid : Laid Deliberation.codec (fun d => (Body.deliberation d).Fits) layout := by
  refine Laid.congr (Laid.via (laid_uuid.both <| laid_text.both <| laid_text.both <| laid_decimal.both <|
    laid_unsigned.both laid_bool) (fun _ => rfl) (fun _ => rfl)) (fun d => ?_) (fun d => by simp [layout])
  simp [Body.Fits, Body.strings, Text.Storable]

theorem Execution.laid : Laid Execution.codec (fun e => (Body.execution e).Fits) layout := by
  refine Laid.congr (Laid.via (laid_uuid.both <| (laid_oneOf OrderKind.mem_all (by decide) (by decide)).both <|
    laid_text.both <| Side.laid.both <| laid_decimal.both <| laid_decimal.optional.both <| laid_text.optional.both <|
    laid_oneOf OrderStatus.mem_all (by decide) (by decide)) (fun _ => rfl) (fun _ => rfl)) (fun e => ?_)
    (fun e => by simp [layout])
  simp [Body.Fits, Body.strings, Text.Storable]

theorem OrderEvent.laid : Laid OrderEvent.codec (fun e => (Body.event e).Fits) layout := by
  have decimals := laid_decimal.optional
  have texts := laid_text.optional
  refine Laid.congr (Laid.via (laid_uuid.both <| (laid_oneOf EventKind.mem_all (by decide) (by decide)).both <|
    decimals.both <| decimals.both <| decimals.both <| texts.both <| texts.both texts) (fun _ => rfl) (fun _ => rfl))
    (fun e => ?_) (fun e => by simp [layout])
  simp [Body.Fits, Body.strings, Text.Storable, or_imp, forall_and]

theorem Table.laid : Laid Table.codec (fun _ => True) (fast Table.codec) :=
  laid_oneOf mem_all (by decide) (by decide)

namespace Body

/-- The fields behind the tag of a body. -/
def fields : Body → List (Piece Decimal)
  | .signal s => s.layout
  | .deliberation d => d.layout
  | .execution e => e.layout
  | .event e => e.layout

def layout (b : Body) : List (Piece Decimal) := fast Table.codec b.table ++ b.fields

theorem writeFields_eq (b : Body) : writeFields b = joined (printed b.fields) := by
  cases b with
  | signal s => exact Signal.laid.write s
  | deliberation d => exact Deliberation.laid.write d
  | execution e => exact Execution.laid.write e
  | event e => exact OrderEvent.laid.write e

/-- Behind the tag of a table the fields of its bodies are read from their spellings. -/
theorem readFields_iff {t : Table} {b rest : Bytes} {x : Body} :
    readFields t b = .ok (x, rest) ↔ x.table = t ∧ x.Fits ∧ ∃ l, Spells l x.fields ∧ b = joined l ++ rest := by
  constructor
  · intro h
    cases t with
    | signals =>
      obtain ⟨⟨s, r⟩, hs, he⟩ := bind_eq_ok h
      cases he
      exact ⟨rfl, (Signal.laid.read b s rest).1 hs⟩
    | deliberations =>
      obtain ⟨⟨d, r⟩, hd, he⟩ := bind_eq_ok h
      cases he
      exact ⟨rfl, (Deliberation.laid.read b d rest).1 hd⟩
    | orderExecutions =>
      obtain ⟨⟨e, r⟩, he, heq⟩ := bind_eq_ok h
      cases heq
      exact ⟨rfl, (Execution.laid.read b e rest).1 he⟩
    | orderEvents =>
      obtain ⟨⟨e, r⟩, he, heq⟩ := bind_eq_ok h
      cases heq
      exact ⟨rfl, (OrderEvent.laid.read b e rest).1 he⟩
  · rintro ⟨rfl, hx⟩
    cases x with
    | signal s => exact bind_ok ((Signal.laid.read b s rest).2 hx)
    | deliberation d => exact bind_ok ((Deliberation.laid.read b d rest).2 hx)
    | execution e => exact bind_ok ((Execution.laid.read b e rest).2 hx)
    | event e => exact bind_ok ((OrderEvent.laid.read b e rest).2 hx)

theorem laid : Laid Body.codec Fits layout where
  write b := by
    show Table.codec.write b.table ++ writeFields b = _
    rw [Table.laid.write, writeFields_eq, layout, printed_append, joined_append]
  read b x rest := by
    constructor
    · intro hread
      obtain ⟨⟨t, r⟩, ht, hx⟩ := bind_eq_ok hread
      obtain ⟨-, l, hl, rfl⟩ := (Table.laid.read b t r).1 ht
      obtain ⟨rfl, hfits, l', hl', rfl⟩ := readFields_iff.1 hx
      refine ⟨hfits, l ++ l', spells_append.2 ⟨l, l', hl, hl', rfl⟩, ?_⟩
      rw [joined_append, List.append_assoc]
    · rintro ⟨hfits, l, hl, rfl⟩
      obtain ⟨l', l'', hl', hl'', rfl⟩ := spells_append.1 hl
      rw [joined_append, List.append_assoc]
      exact (bind_ok ((Table.laid.read _ _ _).2 ⟨trivial, l', hl', rfl⟩)).trans
        (readFields_iff.2 ⟨rfl, hfits, l'', hl'', rfl⟩)

end Body

/-! ## Envelopes -/

namespace Envelope

def layout (e : Envelope) : List (Piece Decimal) :=
  [fast Table.codec e.table, fast Codec.unsigned e.position, fast Codec.uuid e.recordId, fast Codec.uuid e.linkId,
    fast Codec.signed e.createdAt, e.body.layout].flatten

theorem laid : Laid codec (fun e => e.body.Fits) layout := by
  refine Laid.congr (Laid.via (Table.laid.both <| laid_unsigned.both <| laid_uuid.both <| laid_uuid.both <|
    laid_signed.both Body.laid) (fun _ => rfl) (fun _ => rfl)) (fun e => ?_) (fun e => by simp [layout])
  simp

/-- The canonical octets are the pieces of an envelope with every decimal as it is printed. -/
theorem encode_eq (e : Envelope) : encode e = joined (printed e.layout) := laid.write e

/-- An envelope is decoded from the spellings of its pieces, with anything behind them. -/
theorem decode_iff {b : Bytes} {e : Envelope} :
    decode b = .ok e ↔ e.body.Fits ∧ ∃ l z, Spells l e.layout ∧ b = joined l ++ z := by
  rw [decode_eq_ok_iff]
  constructor
  · rintro ⟨z, hr⟩
    obtain ⟨hfits, l, hl, hb⟩ := (laid.read b e z).1 hr
    exact ⟨hfits, l, z, hl, hb⟩
  · rintro ⟨hfits, l, z, hl, hb⟩
    exact ⟨z, (laid.read b e z).2 ⟨hfits, l, hl, hb⟩⟩

theorem mem_texts_layout {e : Envelope} {d : Decimal} : d ∈ texts e.layout ↔ d ∈ e.body.decimals := by
  have hfields : texts e.layout = texts e.body.fields := by simp [layout, Body.layout]
  rw [hfields]
  cases e.body with
  | signal s => simp [Body.fields, Signal.layout, Body.decimals, or_comm]
  | deliberation d => simp [Body.fields, Deliberation.layout, Body.decimals]
  | execution e => simp [Body.fields, Execution.layout, Body.decimals]
  | event e => simp [Body.fields, OrderEvent.layout, Body.decimals]

/-- What an envelope is decoded from is its pieces, each decimal spelt as some text that reads as it,
and octets behind them that do not matter. Its canonical octets are the same pieces, each decimal as it
is printed, so they are what it was decoded from if nothing stood behind it and every text in it was a
printed one. They decode as the envelope without a sign on any zero, hence as the envelope itself
exactly if no text vanished. -/
theorem decoding_exact {b : Bytes} {e : Envelope} (h : decode b = .ok e) :
    encode e = joined (printed e.layout) ∧
      ∃ l z, Spells l e.layout ∧ b = joined l ++ z ∧
        (∀ z', decode (joined l ++ z') = .ok e) ∧
        (z = [] → (∀ s ∈ texts l, ∃ d, Decimal.ofText? s = some d ∧ d.text = s) → encode e = b) ∧
        decode (encode e) = .ok e.unsignedZeros ∧
        (decode (encode e) = .ok e ↔ ∀ s ∈ texts l, ¬ Decimal.Vanishes s) := by
  obtain ⟨hfits, l, z, hl, hb⟩ := decode_iff.1 h
  have hback := decode_encode_of_fits hfits
  refine ⟨encode_eq e, l, z, hl, hb, fun z' => decode_iff.2 ⟨hfits, l, z', hl, rfl⟩, fun hz hprinted => ?_, hback, ?_⟩
  · rw [encode_eq, hb, hz, List.append_nil, eq_printed hl hprinted]
  · rw [hback, Except.ok.injEq, unsignedZeros_eq_self_iff, not_vanishes_iff hl]
    exact forall_congr' fun d => imp_congr_left mem_texts_layout.symm

/-- A filled order. -/
def filled : Envelope where
  table := .orderEvents
  position := 1
  recordId := Uuid.made 1 1
  linkId := Uuid.made 2 1
  createdAt := 0
  body := .event ⟨Uuid.made 2 1, .fill, Decimal.ofParts? false 5 1, Decimal.ofParts? false 1000 0,
    Decimal.ofParts? false 0 0, none, none, none⟩

/-- The same with none of its decimals as it is printed, and with an octet too many. -/
def filledLoosely : Bytes :=
  Table.codec.write .orderEvents ++ Codec.unsigned.write 1 ++ Codec.uuid.write (Uuid.made 1 1) ++
    Codec.uuid.write (Uuid.made 2 1) ++ Codec.signed.write 0 ++ Table.codec.write .orderEvents ++
    Codec.uuid.write (Uuid.made 2 1) ++ (Codec.oneOf EventKind.all).write .fill ++ [1] ++ Codec.text.write "+.5" ++
    [1] ++ Codec.text.write "1_0e2" ++ [1] ++ Codec.text.write "-0" ++ [0, 0, 0] ++ [0xFF]

theorem filledLoosely_decoding_exact :
    decode filledLoosely = .ok filled ∧ encode filled ≠ filledLoosely ∧
      ∃ l z, Spells l filled.layout ∧ filledLoosely = joined l ++ z ∧
        (decode (encode filled) = .ok filled ↔ ∀ s ∈ texts l, ¬ Decimal.Vanishes s) := by
  have h : decode filledLoosely = .ok filled := by decide +kernel
  obtain ⟨-, l, z, hl, hb, -, -, -, hback⟩ := decoding_exact h
  exact ⟨h, by decide +kernel, l, z, hl, hb, hback⟩

/-- A fill whose price is zero with a minus sign. -/
def faint : Envelope where
  table := .orderEvents
  position := 1
  recordId := Uuid.made 1 1
  linkId := Uuid.made 2 1
  createdAt := 0
  body := .event ⟨Uuid.made 2 1, .partialFill, Decimal.ofParts? false 5 1, Decimal.ofParts? true 0 28, none, none,
    none, none⟩

/-- The same record with its price written as a third of the least number that is kept, below zero. -/
def faintPrice : Bytes :=
  Table.codec.write .orderEvents ++ Codec.unsigned.write 1 ++ Codec.uuid.write (Uuid.made 1 1) ++
    Codec.uuid.write (Uuid.made 2 1) ++ Codec.signed.write 0 ++ Table.codec.write .orderEvents ++
    Codec.uuid.write (Uuid.made 2 1) ++ (Codec.oneOf EventKind.all).write .partialFill ++ [1] ++
    Codec.text.write "0.5" ++ [1] ++ Codec.text.write "-0.3333333333333333333333333333e-28" ++ [0, 0, 0, 0]

/-- The canonical octets of what was decoded may decode as another envelope. -/
theorem faintPrice_changes :
    decode faintPrice = .ok faint ∧ decode (encode faint) = .ok faint.unsignedZeros ∧
      decode (encode faint) ≠ .ok faint := by
  refine ⟨?_, ?_, ?_⟩ <;> decide +kernel

end Envelope

end TradeLedger
