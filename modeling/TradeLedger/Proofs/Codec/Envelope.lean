/-
The canonical octets of an envelope lose nothing of it and say where they end. Every text and octet
string must be of a length that eight octets can hold, which is `Fits`. Then the octets read as the
envelope, whatever follows them, but for the sign of a zero in its decimals; a body without negative
zeros is `Storable`, and comes back as it was. Less than the octets reads as nothing, and no two
envelopes start one string of octets, so no canonical octets are the start of others.
-/
import TradeLedger.Envelope
import TradeLedger.Proofs.Codec.Laws

namespace TradeLedger

open Codec

/-! ## What can be stored -/

/-- Eight octets hold the length of a text. -/
def Text.Storable (s : String) : Prop := (Bytes.ofText s).length < 256 ^ 8

/-- A decimal that its text gives back. -/
def Decimal.Storable (d : Decimal) : Prop := Text.Storable d.text ∧ Decimal.ofText? d.text = some d

structure Signal.Storable (s : Signal) : Prop where
  dedupeKey : Text.Storable s.dedupeKey
  symbol : Text.Storable s.symbol
  price : ∀ d ∈ s.price, d.Storable
  quantity : s.quantity.Storable
  request : s.request.length < 256 ^ 8
  sourceAddress : ∀ a ∈ s.sourceAddress, Text.Storable a

structure Deliberation.Storable (d : Deliberation) : Prop where
  model : Text.Storable d.model
  reasoning : Text.Storable d.reasoning
  confidence : d.confidence.Storable

structure Execution.Storable (e : Execution) : Prop where
  symbol : Text.Storable e.symbol
  quantity : e.quantity.Storable
  price : ∀ d ∈ e.price, d.Storable
  externalOrderId : ∀ i ∈ e.externalOrderId, Text.Storable i

structure OrderEvent.Storable (e : OrderEvent) : Prop where
  fillQuantity : ∀ d ∈ e.fillQuantity, d.Storable
  fillPrice : ∀ d ∈ e.fillPrice, d.Storable
  equity : ∀ d ∈ e.equity, d.Storable
  closedPositions : ∀ j ∈ e.closedPositions, Text.Storable j
  rejectionDetail : ∀ r ∈ e.rejectionDetail, Text.Storable r
  externalErrorCode : ∀ c ∈ e.externalErrorCode, Text.Storable c

/-- A body whose every field is read back. -/
def Body.Storable : Body → Prop
  | .signal s => s.Storable
  | .deliberation d => d.Storable
  | .execution e => e.Storable
  | .event e => e.Storable

theorem Decimal.storable_iff {d : Decimal} : d.Storable ↔ d.Signed := by
  have hl := d.length_text_le
  rw [Decimal.Storable, Decimal.ofText?_text, Option.some_inj, Decimal.unsignedZero_eq_self_iff, Text.Storable]
  exact and_iff_right (by omega)

namespace Body

/-- The texts and the strings of octets in a body, each as octets. -/
def strings : Body → List Bytes
  | .signal s =>
    [Bytes.ofText s.dedupeKey, Bytes.ofText s.symbol, s.request] ++ s.sourceAddress.toList.map Bytes.ofText
  | .deliberation d => [Bytes.ofText d.model, Bytes.ofText d.reasoning]
  | .execution e => Bytes.ofText e.symbol :: e.externalOrderId.toList.map Bytes.ofText
  | .event e =>
    (e.closedPositions.toList ++ e.rejectionDetail.toList ++ e.externalErrorCode.toList).map Bytes.ofText

/-- The decimals in a body. -/
def decimals : Body → List Decimal
  | .signal s => s.quantity :: s.price.toList
  | .deliberation d => [d.confidence]
  | .execution e => e.quantity :: e.price.toList
  | .event e => e.fillQuantity.toList ++ e.fillPrice.toList ++ e.equity.toList

/-- Eight octets hold the length of everything in a body. -/
def Fits (b : Body) : Prop := ∀ s ∈ b.strings, s.length < 256 ^ 8

/-- The body without a sign on any zero. -/
def unsignedZeros : Body → Body
  | .signal s => .signal { s with
      price := s.price.map Decimal.unsignedZero, quantity := s.quantity.unsignedZero }
  | .deliberation d => .deliberation { d with confidence := d.confidence.unsignedZero }
  | .execution e => .execution { e with
      quantity := e.quantity.unsignedZero, price := e.price.map Decimal.unsignedZero }
  | .event e => .event { e with
      fillQuantity := e.fillQuantity.map Decimal.unsignedZero
      fillPrice := e.fillPrice.map Decimal.unsignedZero
      equity := e.equity.map Decimal.unsignedZero }

@[simp] theorem table_unsignedZeros (b : Body) : b.unsignedZeros.table = b.table := by cases b <;> rfl

@[simp] theorem linkId_unsignedZeros (b : Body) : b.unsignedZeros.linkId = b.linkId := by cases b <;> rfl

theorem map_unsignedZero_eq_self_iff {o : Option Decimal} :
    o.map Decimal.unsignedZero = o ↔ ∀ d ∈ o, d.Signed := by
  cases o <;> simp [Decimal.unsignedZero_eq_self_iff]

/-- A body has no sign to lose exactly if none of its decimals is a negative zero. -/
theorem unsignedZeros_eq_self_iff {b : Body} : b.unsignedZeros = b ↔ ∀ d ∈ b.decimals, d.Signed := by
  cases b with
  | signal s =>
    simp [unsignedZeros, decimals, Signal.ext_iff, Decimal.unsignedZero_eq_self_iff, map_unsignedZero_eq_self_iff,
      and_comm]
  | deliberation d =>
    simp [unsignedZeros, decimals, Deliberation.ext_iff, Decimal.unsignedZero_eq_self_iff]
  | execution e =>
    simp [unsignedZeros, decimals, Execution.ext_iff, Decimal.unsignedZero_eq_self_iff, map_unsignedZero_eq_self_iff]
  | event e =>
    simp [unsignedZeros, decimals, OrderEvent.ext_iff, map_unsignedZero_eq_self_iff, or_imp, forall_and]

theorem Storable.fits {b : Body} (h : b.Storable) : b.Fits := by
  intro s hs
  cases b with
  | signal d =>
    simp only [strings, List.mem_append, List.mem_cons, List.not_mem_nil, or_false, List.mem_map,
      Option.mem_toList] at hs
    rcases hs with (rfl | rfl | rfl) | ⟨a, ha, rfl⟩
    exacts [Signal.Storable.dedupeKey h, Signal.Storable.symbol h, Signal.Storable.request h,
      Signal.Storable.sourceAddress h a ha]
  | deliberation d =>
    simp only [strings, List.mem_cons, List.not_mem_nil, or_false] at hs
    rcases hs with rfl | rfl
    exacts [Deliberation.Storable.model h, Deliberation.Storable.reasoning h]
  | execution e =>
    simp only [strings, List.mem_cons, List.mem_map, Option.mem_toList] at hs
    rcases hs with rfl | ⟨i, hi, rfl⟩
    exacts [Execution.Storable.symbol h, Execution.Storable.externalOrderId h i hi]
  | event e =>
    simp only [strings, List.mem_map, List.mem_append, Option.mem_toList] at hs
    obtain ⟨t, (ht | ht) | ht, rfl⟩ := hs
    exacts [OrderEvent.Storable.closedPositions h t ht, OrderEvent.Storable.rejectionDetail h t ht,
      OrderEvent.Storable.externalErrorCode h t ht]

theorem Storable.signed {b : Body} (h : b.Storable) : ∀ d ∈ b.decimals, d.Signed := by
  intro d hd
  rw [← Decimal.storable_iff]
  cases b with
  | signal s =>
    simp only [decimals, List.mem_cons, Option.mem_toList] at hd
    rcases hd with rfl | hd
    exacts [Signal.Storable.quantity h, Signal.Storable.price h d hd]
  | deliberation e =>
    cases List.mem_singleton.1 hd
    exact Deliberation.Storable.confidence h
  | execution e =>
    simp only [decimals, List.mem_cons, Option.mem_toList] at hd
    rcases hd with rfl | hd
    exacts [Execution.Storable.quantity h, Execution.Storable.price h d hd]
  | event e =>
    simp only [decimals, List.mem_append, Option.mem_toList] at hd
    rcases hd with (hd | hd) | hd
    exacts [OrderEvent.Storable.fillQuantity h d hd, OrderEvent.Storable.fillPrice h d hd,
      OrderEvent.Storable.equity h d hd]

end Body

/-! ## Bodies -/

theorem Table.faithful : Faithful Table.codec (fun _ => True) id := faithful_oneOf Table.mem_all (by decide)

theorem Signal.faithful : Faithful Signal.codec (fun s => (Body.signal s).Fits)
    (fun s => { s with price := s.price.map Decimal.unsignedZero, quantity := s.quantity.unsignedZero }) := by
  refine Faithful.via (faithful_text.both <| faithful_uuid.both <| faithful_text.both <|
    (faithful_oneOf Side.mem_all (by decide)).both <| (faithful_optional faithful_decimal).both <|
    faithful_decimal.both <| faithful_octets.both <| (faithful_optional faithful_text).both faithful_bool)
    (fun s h => ?_) (fun s => by simp) (fun _ => rfl)
  exact ⟨h _ (by simp [Body.strings]), trivial, h _ (by simp [Body.strings]), trivial, fun _ _ => trivial, trivial,
    h _ (by simp [Body.strings]), fun a ha => h _ (by simp_all [Body.strings]), trivial⟩

theorem Deliberation.faithful : Faithful Deliberation.codec (fun d => (Body.deliberation d).Fits)
    (fun d => { d with confidence := d.confidence.unsignedZero }) := by
  refine Faithful.via (faithful_uuid.both <| faithful_text.both <| faithful_text.both <| faithful_decimal.both <|
    faithful_unsigned.both faithful_bool) (fun d h => ?_) (fun _ => rfl) (fun _ => rfl)
  exact ⟨trivial, h _ (by simp [Body.strings]), h _ (by simp [Body.strings]), trivial, trivial, trivial⟩

theorem Execution.faithful : Faithful Execution.codec (fun e => (Body.execution e).Fits)
    (fun e => { e with quantity := e.quantity.unsignedZero, price := e.price.map Decimal.unsignedZero }) := by
  refine Faithful.via (faithful_uuid.both <| (faithful_oneOf OrderKind.mem_all (by decide)).both <|
    faithful_text.both <| (faithful_oneOf Side.mem_all (by decide)).both <| faithful_decimal.both <|
    (faithful_optional faithful_decimal).both <| (faithful_optional faithful_text).both <|
    faithful_oneOf OrderStatus.mem_all (by decide)) (fun e h => ?_) (fun e => by simp) (fun _ => rfl)
  exact ⟨trivial, trivial, h _ (by simp [Body.strings]), trivial, trivial, fun _ _ => trivial,
    fun i hi => h _ (by simp_all [Body.strings]), trivial⟩

theorem OrderEvent.faithful : Faithful OrderEvent.codec (fun e => (Body.event e).Fits)
    (fun e => { e with
      fillQuantity := e.fillQuantity.map Decimal.unsignedZero
      fillPrice := e.fillPrice.map Decimal.unsignedZero
      equity := e.equity.map Decimal.unsignedZero }) := by
  have decimals := faithful_optional faithful_decimal
  have texts := faithful_optional faithful_text
  refine Faithful.via (faithful_uuid.both <| (faithful_oneOf EventKind.mem_all (by decide)).both <|
    decimals.both <| decimals.both <| decimals.both <| texts.both <| texts.both texts) (fun e h => ?_)
    (fun e => by simp) (fun _ => rfl)
  exact ⟨trivial, trivial, fun _ _ => trivial, fun _ _ => trivial, fun _ _ => trivial,
    fun j hj => h _ (by simp_all [Body.strings]), fun r hr => h _ (by simp_all [Body.strings]),
    fun c hc => h _ (by simp_all [Body.strings])⟩

namespace Body

/-- Reading a body behind its tag stops where the reader of its fields does. -/
theorem stops_readFields {t : Table} {b rest : Bytes} {x : Body} (h : readFields t b = .ok (x, rest)) (z : Bytes) :
    readFields t (b ++ z) = .ok (x, rest ++ z) := by
  have wrapped {α : Type} {c : Codec α} {wrap : α → Body} {k : α × Bytes → Except Damage (Body × Bytes)}
      (hk : ∀ p, k p = .ok (wrap p.1, p.2)) (hs : Stops c) (h : (c.read b >>= k) = .ok (x, rest)) :
      (c.read (b ++ z) >>= k) = .ok (x, rest ++ z) := by
    obtain ⟨⟨y, r⟩, hy, he⟩ := bind_eq_ok h
    rw [hk] at he
    cases he
    exact (bind_ok (hs b y _ hy z)).trans (hk _)
  cases t with
  | signals => exact wrapped (fun _ => rfl) Signal.faithful.stops h
  | deliberations => exact wrapped (fun _ => rfl) Deliberation.faithful.stops h
  | orderExecutions => exact wrapped (fun _ => rfl) Execution.faithful.stops h
  | orderEvents => exact wrapped (fun _ => rfl) OrderEvent.faithful.stops h

/-- The fields behind the tag of a body's own table are read as that body. -/
theorem readFields_writeFields {b : Body} (h : b.Fits) (z : Bytes) :
    readFields b.table (writeFields b ++ z) = .ok (b.unsignedZeros, z) := by
  cases b with
  | signal s => exact bind_ok (Signal.faithful.reads s h z)
  | deliberation d => exact bind_ok (Deliberation.faithful.reads d h z)
  | execution e => exact bind_ok (Execution.faithful.reads e h z)
  | event e => exact bind_ok (OrderEvent.faithful.reads e h z)

/-- Bodies of one table are told apart by their fields. -/
theorem eq_of_writeFields {b b' : Body} (ht : b.table = b'.table) (h : b.Fits) (h' : b'.Fits) {z z' : Bytes}
    (he : writeFields b ++ z = writeFields b' ++ z') : b = b' ∧ z = z' := by
  cases b <;> cases b' <;> cases ht
  case signal.signal s s' =>
    obtain ⟨hb, hz⟩ := Signal.faithful.apart s s' h h' z z' he
    exact ⟨congrArg _ hb, hz⟩
  case deliberation.deliberation d d' =>
    obtain ⟨hb, hz⟩ := Deliberation.faithful.apart d d' h h' z z' he
    exact ⟨congrArg _ hb, hz⟩
  case execution.execution e e' =>
    obtain ⟨hb, hz⟩ := Execution.faithful.apart e e' h h' z z' he
    exact ⟨congrArg _ hb, hz⟩
  case event.event e e' =>
    obtain ⟨hb, hz⟩ := OrderEvent.faithful.apart e e' h h' z z' he
    exact ⟨congrArg _ hb, hz⟩

theorem faithful : Faithful Body.codec Fits unsignedZeros where
  reads b h z := by
    have htag := Table.faithful.reads b.table trivial (writeFields b ++ z)
    rw [← List.append_assoc] at htag
    exact (bind_ok htag).trans (readFields_writeFields h z)
  apart b b' h h' z z' he := by
    have he : Table.codec.write b.table ++ writeFields b ++ z = Table.codec.write b'.table ++ writeFields b' ++ z' := he
    rw [List.append_assoc, List.append_assoc] at he
    obtain ⟨ht, he⟩ := Table.faithful.apart _ _ trivial trivial _ _ he
    exact eq_of_writeFields ht h h' he
  stops b x rest hr z := by
    obtain ⟨⟨t, r⟩, ht, hr⟩ := bind_eq_ok hr
    exact (bind_ok (Table.faithful.stops b t r ht z)).trans (stops_readFields hr z)

end Body

/-! ## Envelopes -/

namespace Envelope

/-- The envelope without a sign on any zero. -/
def unsignedZeros (e : Envelope) : Envelope := { e with body := e.body.unsignedZeros }

theorem unsignedZeros_eq_self_iff {e : Envelope} : e.unsignedZeros = e ↔ ∀ d ∈ e.body.decimals, d.Signed := by
  rw [← Body.unsignedZeros_eq_self_iff, Envelope.ext_iff]
  simp [unsignedZeros]

theorem faithful : Faithful Envelope.codec (fun e => e.body.Fits) unsignedZeros :=
  (Table.faithful.both <| faithful_unsigned.both <| faithful_uuid.both <| faithful_uuid.both <|
    faithful_signed.both Body.faithful).via (fun _ h => ⟨trivial, trivial, trivial, trivial, trivial, h⟩)
    (fun _ => rfl) (fun _ => rfl)

/-- What is decoded is read, and what follows it is left. -/
theorem decode_eq_ok_iff {b : Bytes} {e : Envelope} : decode b = .ok e ↔ ∃ rest, codec.read b = .ok (e, rest) := by
  constructor
  · intro h
    obtain ⟨⟨e', rest⟩, hr, he⟩ := bind_eq_ok h
    cases he
    exact ⟨rest, hr⟩
  · rintro ⟨rest, hr⟩
    exact bind_ok hr

theorem decode_encode_append {e : Envelope} (h : e.body.Fits) (z : Bytes) :
    decode (encode e ++ z) = .ok e.unsignedZeros :=
  decode_eq_ok_iff.2 ⟨z, faithful.reads e h z⟩

theorem decode_encode_of_fits {e : Envelope} (h : e.body.Fits) : decode (encode e) = .ok e.unsignedZeros := by
  have hr := decode_encode_append h []
  rwa [List.append_nil] at hr

/-- An envelope is read back from its canonical octets. -/
theorem decode_encode {e : Envelope} (h : e.body.Storable) : decode (encode e) = .ok e := by
  rw [decode_encode_of_fits h.fits, unsignedZeros_eq_self_iff.2 h.signed]

/-- The table and the position alone take twelve octets. -/
theorem twelve_le_length {b : Bytes} {e : Envelope} (h : decode b = .ok e) : 12 ≤ b.length := by
  -- the readers of the envelope, one inside the other
  obtain ⟨⟨e, rest⟩, he, -⟩ := bind_eq_ok h
  obtain ⟨⟨fields, rest⟩, hf, -⟩ := bind_eq_ok he
  obtain ⟨⟨t, afterTable⟩, ht, hf⟩ := bind_eq_ok hf
  obtain ⟨⟨others, rest⟩, ho, -⟩ := bind_eq_ok hf
  obtain ⟨⟨p, afterPosition⟩, hp, -⟩ := bind_eq_ok ho
  have h1 := consumes_oneOf Table.all b t afterTable ht
  have h2 := consumes_unsigned afterTable p afterPosition hp
  omega

/-! ## Nothing is lost -/

/-- In front of any octets the canonical octets of an envelope read as the envelope without a sign on
any zero, hence as the envelope itself exactly if none of its decimals is a negative zero. Nothing
is read from a part that lacks some of them at its end, and no string of octets starts with the
canonical octets of two envelopes. -/
theorem encoding_lossless {e : Envelope} (h : e.body.Fits) (z : Bytes) :
    decode (encode e ++ z) = .ok e.unsignedZeros ∧
      (decode (encode e ++ z) = .ok e ↔ ∀ d ∈ e.body.decimals, d.Signed) ∧
      (∀ b s, encode e = b ++ s → s ≠ [] → ∃ damage, decode b = .error damage) ∧
      ∀ e' z', e'.body.Fits → encode e ++ z = encode e' ++ z' → e = e' ∧ z = z' := by
  have hread := decode_encode_append h z
  refine ⟨hread, ?_, fun b s hb hs => ?_, fun e' z' h' he => faithful.apart e e' h h' z z' he⟩
  · rw [hread, Except.ok.injEq, unsignedZeros_eq_self_iff]
  · obtain ⟨damage, hd⟩ := faithful.read_short h hb hs
    refine ⟨damage, ?_⟩
    unfold decode
    rw [hd]
    rfl

/-- A cancelled order whose equity is zero with a minus sign. -/
def negativeZero : Envelope where
  table := .orderEvents
  position := 1
  recordId := Uuid.made 1 1
  linkId := Uuid.made 2 1
  createdAt := 0
  body := .event ⟨Uuid.made 2 1, .cancel, none, none, some ⟨true, 0, 28, by decide, by decide⟩, none, none, none⟩

theorem negativeZero_lossless :
    negativeZero.body.Fits ∧
      (decode (encode negativeZero ++ [0]) = .ok negativeZero ↔ ∀ d ∈ negativeZero.body.decimals, d.Signed) := by
  have h : negativeZero.body.Fits := by simp [Body.Fits, Body.strings, negativeZero]
  exact ⟨h, (encoding_lossless h [0]).2.1⟩

/-- The same record with its equity written as so small a number that its only digit is rounded off. -/
def tinyEquity : Bytes :=
  Table.codec.write .orderEvents ++ Codec.unsigned.write 1 ++ Codec.uuid.write (Uuid.made 1 1) ++
    Codec.uuid.write (Uuid.made 2 1) ++ Codec.signed.write 0 ++ Table.codec.write .orderEvents ++
    Codec.uuid.write (Uuid.made 2 1) ++ (Codec.oneOf EventKind.all).write .cancel ++ [0, 0, 1] ++
    Codec.text.write "-0.4e-28" ++ [0, 0, 0]

/-- Reading a power of ten can leave a negative zero, and its sign does not come back. -/
theorem tinyEquity_loses_sign :
    decode tinyEquity = .ok negativeZero ∧ decode (encode negativeZero) ≠ .ok negativeZero := by
  constructor <;> decide +kernel

end Envelope

end TradeLedger
