/-
What is made of rows that verify, whoever wrote them. Verification holds the columns of a row against
the header of its content and does not look at the body. The index knows signals by the bodies of the
rows, and executions by their record identifiers; and what is read by an identifier is read by the link
in the column. So the index and the readers agree as far as each body agrees with its header. Rows that
an engine stamped all do; rows that were written with their digests by somebody else need not.
-/
import TradeLedger.Proofs.Session.Reads

namespace TradeLedger

/-! ## Memories -/

namespace Memory

/-- What appends can make of a memory without any rows. -/
inductive Filled : Memory → Prop where
  | empty : Filled .empty
  | append {m m' : Memory} {permit : Table} {r : Row} : Filled m → m.append permit r = .ok m' → Filled m'

theorem Filled.indexed {m : Memory} (h : m.Filled) : m.Indexed := by
  induction h with
  | empty => exact indexed_empty
  | append _ happend ih =>
    obtain ⟨-, -, rfl⟩ := append_eq_ok happend
    exact ih.push _

/-- A row may be pushed that stands behind the last. -/
theorem Filled.push {m : Memory} (h : m.Filled) {r : Row} (hr : r.position.toNat = (m.rows.get r.table).length + 1) :
    (m.push r).Filled := by
  refine h.append (show m.append r.table r = .ok (m.push r) from ?_)
  simp [Memory.append, Memory.size, hr]

theorem placed_of_linked {m : Memory} {tails : PerTable Chain.Tail}
    (h : ∀ t, Chain.Linked t (m.rows.get t) (tails.get t)) : m.Placed :=
  fun t _ _ hr => ((h t).getElem?_eq hr).1

end Memory

/-! ## The index that is recovered -/

/-- The last of these signals under a dedupe key. -/
def lastUnder (key : String) (signals : List Signal) : Option Signal := (signals.filter (·.dedupeKey = key)).getLast?

theorem lastUnder_append (key : String) (signals : List Signal) (s : Signal) :
    lastUnder key (signals ++ [s]) = if key = s.dedupeKey then some s else lastUnder key signals := by
  unfold lastUnder
  rw [List.filter_append]
  by_cases h : s.dedupeKey = key
  · simp [h]
  · simp [h, Ne.symm h]

/-- A signal behind which its dedupe key does not come again is the last under it. -/
theorem lastUnder_eq_some {key : String} {front later : List Signal} {s : Signal} (hs : s.dedupeKey = key)
    (hlater : ∀ s' ∈ later, s'.dedupeKey ≠ key) : lastUnder key (front ++ s :: later) = some s := by
  have hnone : later.filter (·.dedupeKey = key) = [] := by simpa [List.filter_eq_nil_iff] using hlater
  rw [lastUnder, List.filter_append, List.filter_cons_of_pos (by simpa using hs), hnone]
  simp

namespace Index

variable {x : Index}

theorem restoreRow_of_none {r : Row} (h : r.signal? = none) : x.restoreRow r = x := by
  unfold Row.signal? at h
  rw [restoreRow, Row.record]
  cases hd : Envelope.decode r.content with
  | error damage => rfl
  | ok e =>
    rw [hd] at h
    cases e with
    | mk table position recordId linkId createdAt body =>
      cases body with
      | signal s => cases h
      | deliberation _ | execution _ | event _ => rfl

theorem recorded_append_of_none (rows : List Row) {r : Row} (h : r.signal? = none) :
    recorded (rows ++ [r]) = recorded rows := by
  rw [recorded, List.filterMap_append, List.filterMap_cons_none h, List.filterMap_nil, List.append_nil, recorded]

/-- The signals of restored rows are known, and no others. -/
theorem hasCorrelation_restoreRows (rows : List Row) (id : Uuid) :
    (rows.foldl restoreRow empty).hasCorrelation id = true ↔ ∃ s ∈ recorded rows, s.correlationId = id := by
  induction rows using List.reverseRecOn with
  | nil => simp [hasCorrelation, recorded, empty]
  | append_singleton rows r ih =>
    rw [List.foldl_append, List.foldl_cons, List.foldl_nil]
    cases hs : r.signal? with
    | none => rw [restoreRow_of_none hs, recorded_append_of_none rows hs, ih]
    | some s =>
      rw [restoreRow_of_signal? hs, recorded_append rows hs, hasCorrelation, correlations_restore]
      simp only [List.mem_append, List.mem_singleton, or_and_right, exists_or, exists_eq_left, ← ih]
      by_cases hid : id = s.correlationId
      · simp [hid]
      · simp [hid, Ne.symm hid, hasCorrelation]

/-- A dedupe key leads to the last of the restored rows that has it. -/
theorem lookup_restoreRows (rows : List Row) (key : String) :
    (rows.foldl restoreRow empty).lookup key = (lastUnder key (recorded rows)).map Signal.correlationId := by
  induction rows using List.reverseRecOn with
  | nil => rfl
  | append_singleton rows r ih =>
    rw [List.foldl_append, List.foldl_cons, List.foldl_nil]
    cases hs : r.signal? with
    | none => rw [restoreRow_of_none hs, recorded_append_of_none rows hs, ih]
    | some s =>
      rw [restoreRow_of_signal? hs, recorded_append rows hs, lastUnder_append, lookup, dedupeKeys_restore]
      split_ifs
      · rfl
      · rw [← ih, lookup]

theorem hasCorrelation_ofMemory (m : Memory) (id : Uuid) :
    (ofMemory m).hasCorrelation id = true ↔ ∃ s ∈ recorded (m.rows.get .signals), s.correlationId = id := by
  rw [ofMemory, hasCorrelation, correlations_registerRows]
  exact hasCorrelation_restoreRows _ id

theorem lookup_ofMemory (m : Memory) (key : String) :
    (ofMemory m).lookup key = (lastUnder key (recorded (m.rows.get .signals))).map Signal.correlationId := by
  rw [ofMemory, lookup, dedupeKeys_registerRows]
  exact lookup_restoreRows _ key

end Index

/-! ## What is known and what is read -/

/-- The row reads, and its columns are those of the header of its content. -/
def Row.Headed (t : Table) (r : Row) : Prop :=
  r.table = t ∧ ∃ e, Envelope.decode r.content = .ok e ∧ e.table = t ∧ e.position = r.position ∧
    e.recordId = r.recordId ∧ e.linkId = r.linkId

/-- What a ledger knows and reads of a memory, by bodies, record identifiers and links. -/
structure Recovered (m : Memory) (w : Running Flaky) : Prop where
  /-- Signals are known by the bodies of the rows of signals, -/
  signals : ∀ id, w.ledger.index.hasCorrelation id = true ↔ ∃ s ∈ recorded (m.rows.get .signals), s.correlationId = id
  /-- dedupe keys by the last body that has them, -/
  keys : ∀ key, w.ledger.index.lookup key = (lastUnder key (recorded (m.rows.get .signals))).map Signal.correlationId
  /-- and executions by the rows of executions, whatever their bodies are. -/
  executions : ∀ id, w.ledger.index.hasExecution id = true ↔ ∃ r ∈ m.rows.get .orderExecutions, r.recordId = id
  /-- By an identifier something is read if a row of signals links to it, whatever its body is. -/
  dossiers : ∀ id, ∃ d, (Query.byCorrelation id).answer w = .ok d ∧
    (d.isSome = true ↔ ∃ r ∈ m.rows.get .signals, r.linkId = id)

/-- What is known is what is read. -/
structure Agreeing (m : Memory) (w : Running Flaky) : Prop where
  /-- Something is read by an identifier exactly if it is known as that of a signal. -/
  signals : ∀ id, ∃ d, (Query.byCorrelation id).answer w = .ok d ∧
    (d.isSome = true ↔ w.ledger.index.hasCorrelation id = true)
  /-- A signal whose dedupe key does not come again is found under it: what is found has its identifier, and
  is its own record unless another row had the identifier before it. -/
  keys : ∀ front r later s, m.rows.get .signals = front ++ r :: later → r.signal? = some s →
    (∀ s' ∈ recorded later, s'.dedupeKey ≠ s.dedupeKey) →
      w.ledger.index.lookup s.dedupeKey = some s.correlationId ∧
      ∃ c, (Query.byDedupeKey s.dedupeKey).answer w = .ok (some c) ∧ c.body.signalId? = some s.correlationId ∧
        ((∀ r' ∈ front, r'.linkId ≠ r.linkId) → r.record = .ok c)
  /-- An execution is known exactly if a row of executions with its identifier says so. -/
  executions : ∀ id, w.ledger.index.hasExecution id = true ↔
    ∃ r ∈ m.rows.get .orderExecutions, r.recordId = id ∧ ∃ c x, r.record = .ok c ∧ c.body = .execution x

section Recovery

variable {w : Running Flaky} {tails : PerTable Chain.Tail}
variable (hlinked : ∀ t, Chain.Linked t (w.site.store.memory.rows.get t) (tails.get t))
variable (hindexed : w.site.store.memory.Indexed)

include hlinked hindexed

theorem linked_of_linked (t : Table) (link : Uuid) :
    Work.linked t link w = (.ok (recordsOf ((w.site.store.memory.rows.get t).filter (·.linkId = link))), w) :=
  Work.linked_apply_of_readable (hlinked t).readable hindexed (Memory.placed_of_linked hlinked) link

/-- By a link something is read exactly if a row of signals has it. -/
theorem byCorrelation_of_linked (id : Uuid) :
    ∃ d, Work.byCorrelation id w = (.ok d, w) ∧
      (d.isSome = true ↔ ∃ r ∈ w.site.store.memory.rows.get .signals, r.linkId = id) := by
  have hread := linked_of_linked hlinked hindexed
  unfold Work.byCorrelation
  rw [bind_apply_ok (hread .signals id)]
  cases hfilter : (w.site.store.memory.rows.get .signals).filter (·.linkId = id) with
  | nil =>
    refine ⟨none, rfl, iff_of_false nofun ?_⟩
    rintro ⟨r, hr, hlink⟩
    exact List.filter_eq_nil_iff.1 hfilter r hr (decide_eq_true hlink)
  | cons r rows =>
    have hmem := hfilter ▸ List.mem_cons_self (a := r) (l := rows)
    obtain ⟨hr, hlink⟩ := List.mem_filter.1 hmem
    obtain ⟨c, hc⟩ := (hlinked .signals).readable r hr
    rw [recordsOf_cons hc]
    dsimp only
    rw [bind_apply_ok (hread .deliberations id), bind_apply_ok (hread .orderExecutions id)]
    exact ⟨some _, rfl, iff_of_true rfl ⟨r, hr, of_decide_eq_true hlink⟩⟩

theorem exists_dossier (id : Uuid) :
    ∃ d, (Query.byCorrelation id).answer w = .ok d ∧
      (d.isSome = true ↔ ∃ r ∈ w.site.store.memory.rows.get .signals, r.linkId = id) := by
  obtain ⟨d, hd, hsome⟩ := byCorrelation_of_linked hlinked hindexed id
  exact ⟨d, congrArg Prod.fst hd, hsome⟩

/-- A dedupe key that leads to the link of a row of signals finds the record of the first row with that link. -/
theorem byDedupeKey_of_linked {key : String} {front later : List Row} {r : Row}
    (hrows : w.site.store.memory.rows.get .signals = front ++ r :: later)
    (hlookup : w.ledger.index.lookup key = some r.linkId) :
    ∃ r₀ c, r₀ ∈ w.site.store.memory.rows.get .signals ∧ r₀.linkId = r.linkId ∧ r₀.record = .ok c ∧
      Work.byDedupeKey key w = (.ok (some c), w) ∧ ((∀ r' ∈ front, r'.linkId ≠ r.linkId) → r₀ = r) := by
  have hfilter : (w.site.store.memory.rows.get .signals).filter (·.linkId = r.linkId) =
      front.filter (·.linkId = r.linkId) ++ r :: later.filter (·.linkId = r.linkId) := by
    rw [hrows, List.filter_append, List.filter_cons_of_pos (by simp)]
  have hfound {r₀ : Row} {rows : List Row}
      (h : (w.site.store.memory.rows.get .signals).filter (·.linkId = r.linkId) = r₀ :: rows) :
      r₀ ∈ w.site.store.memory.rows.get .signals ∧ r₀.linkId = r.linkId ∧
        ∃ c, r₀.record = .ok c ∧ Work.byDedupeKey key w = (.ok (some c), w) := by
    obtain ⟨hr₀, hlink⟩ := List.mem_filter.1 (h ▸ List.mem_cons_self (a := r₀) (l := rows))
    obtain ⟨c, hc⟩ := (hlinked .signals).readable r₀ hr₀
    refine ⟨hr₀, of_decide_eq_true hlink, c, hc, ?_⟩
    unfold Work.byDedupeKey
    rw [bind_apply_ok (Work.get_apply w), hlookup]
    dsimp only
    rw [bind_apply_ok (linked_of_linked hlinked hindexed .signals r.linkId), h, recordsOf_cons hc]
    rfl
  cases hfront : front.filter (·.linkId = r.linkId) with
  | nil =>
    rw [hfront] at hfilter
    obtain ⟨hr, hlink, c, hc, hread⟩ := hfound hfilter
    exact ⟨r, c, hr, hlink, hc, hread, fun _ => rfl⟩
  | cons r₀ rows =>
    rw [hfront] at hfilter
    obtain ⟨hr₀, hlink, c, hc, hread⟩ := hfound hfilter
    refine ⟨r₀, c, hr₀, hlink, hc, hread, fun hnone => ?_⟩
    have hmem := (List.mem_filter.1 (hfront ▸ List.mem_cons_self (a := r₀) (l := rows))).1
    exact absurd hlink (hnone r₀ hmem)

variable (hindex : w.ledger.index = .ofMemory w.site.store.memory)

include hindex

theorem recovered_of_linked : Recovered w.site.store.memory w where
  signals _ := hindex ▸ Index.hasCorrelation_ofMemory _ _
  keys _ := hindex ▸ Index.lookup_ofMemory _ _
  executions _ := hindex ▸ Index.hasExecution_ofMemory (hlinked .orderExecutions)
  dossiers id := exists_dossier hlinked hindexed id

variable (hlegible : ∀ t, ∀ r ∈ w.site.store.memory.rows.get t, r.Legible t)

include hlegible

omit hlinked hindexed hindex in
/-- The signal of a legible row has the identifier that the row links to. -/
theorem exists_signal {r : Row} (hr : r ∈ w.site.store.memory.rows.get .signals) :
    ∃ c s, r.record = .ok c ∧ c.body = .signal s ∧ r.signal? = some s ∧ s.correlationId = r.linkId := by
  obtain ⟨c, hc, htable, hlink⟩ := hlegible .signals r hr
  obtain ⟨s, hs⟩ := Body.eq_signal_of_table htable
  refine ⟨c, s, hc, hs, Row.signal?_of_record hc hs, ?_⟩
  rw [hs] at hlink
  exact hlink

theorem agreeing_of_legible : Agreeing w.site.store.memory w where
  signals id := by
    obtain ⟨d, hd, hsome⟩ := exists_dossier hlinked hindexed id
    refine ⟨d, hd, hsome.trans ?_⟩
    rw [hindex, Index.hasCorrelation_ofMemory, exists_mem_recorded]
    refine exists_congr fun r => and_congr_right fun hr => ?_
    obtain ⟨c, s, -, -, hs, hid⟩ := exists_signal hlegible hr
    rw [hs, ← hid]
    simp
  keys front r later s hrows hs hlater := by
    have hr : r ∈ w.site.store.memory.rows.get .signals := by rw [hrows]; simp
    have hlookup : w.ledger.index.lookup s.dedupeKey = some s.correlationId := by
      have hrecorded : recorded (front ++ r :: later) = recorded front ++ s :: recorded later := by
        rw [recorded, List.filterMap_append, List.filterMap_cons_some hs]
        rfl
      rw [hindex, Index.lookup_ofMemory, hrows, hrecorded, lastUnder_eq_some rfl hlater, Option.map_some]
    obtain ⟨-, s', -, -, hs', hid⟩ := exists_signal hlegible hr
    cases hs.symm.trans hs'
    obtain ⟨r₀, c, hr₀, hlink, hc, hread, hfirst⟩ := byDedupeKey_of_linked hlinked hindexed hrows (hid ▸ hlookup)
    obtain ⟨c', s₀, hc', hbody, -, hid₀⟩ := exists_signal hlegible hr₀
    cases hc.symm.trans hc'
    refine ⟨hlookup, c, congrArg Prod.fst hread, ?_, fun hnone => hfirst hnone ▸ hc⟩
    rw [hbody, Body.signalId?, hid₀, hlink, hid]
  executions id := by
    rw [hindex, Index.hasExecution_ofMemory (hlinked .orderExecutions)]
    refine exists_congr fun r => and_congr_right fun hr => (and_iff_left ?_).symm
    obtain ⟨c, hc, htable, -⟩ := hlegible .orderExecutions r hr
    obtain ⟨x, hx⟩ := Body.eq_execution_of_table c.body htable
    exact ⟨c, x, hc, hx⟩

end Recovery

/-- A ledger opens over linked rows, and knows and reads what they say. -/
theorem exists_recovered {site : Site Flaky} (hfilled : site.store.memory.Filled) {tails : PerTable Chain.Tail}
    (hlinked : ∀ t, Chain.Linked t (site.store.memory.rows.get t) (tails.get t)) (settings : Settings) (sink : Sink) :
    ∃ w : Running Flaky, Ledger.opened settings sink site = (.ok w.ledger, w.site) ∧ Recovered site.store.memory w ∧
      ((∀ t, ∀ r ∈ site.store.memory.rows.get t, r.Legible t) → Agreeing site.store.memory w) := by
  obtain ⟨w, hopened, hw⟩ := Ledger.opened_of_linked hlinked settings sink
  have hmemory : w.site.store.memory = site.store.memory := congrArg Facts.memory hw
  have hindex : w.ledger.index = .ofMemory site.store.memory := congrArg Facts.index hw
  refine ⟨w, hopened, ?_⟩
  rw [← hmemory] at hlinked hindex hfilled ⊢
  exact ⟨recovered_of_linked hlinked hfilled.indexed hindex, agreeing_of_legible hlinked hfilled.indexed hindex⟩

/-- Whatever a memory holds whose tables all verify, every row reads and its columns are those of its header;
a ledger opens over it; and what the ledger knows and reads is what the rows say, each of the two in its own
terms. Where all rows are legible the two agree. -/
theorem intact_recovered {site : Site Flaky} (hfilled : site.store.memory.Filled)
    (hintact : ∀ t, ∃ tail, Chain.verify t (site.store.memory.rows.get t) = .intact t tail) (settings : Settings)
    (sink : Sink) :
    (∀ t, ∀ r ∈ site.store.memory.rows.get t, r.Headed t) ∧
      ∃ w : Running Flaky, Ledger.opened settings sink site = (.ok w.ledger, w.site) ∧
        Recovered site.store.memory w ∧
        ((∀ t, ∀ r ∈ site.store.memory.rows.get t, r.Legible t) → Agreeing site.store.memory w) := by
  choose tail htail using hintact
  have hlinked (t : Table) : Chain.Linked t (site.store.memory.rows.get t) ((PerTable.ofFn tail).get t) := by
    rw [PerTable.get_ofFn]
    exact Chain.linked_of_verify (htail t)
  exact ⟨fun t r hr => (hlinked t).decodes r hr, exists_recovered hfilled hlinked settings sink⟩

/-! ## Rows on record -/

/-- A row behind an end, with whatever content, and the digest that covers it. -/
def written (before : Chain.Tail) (e : Envelope) : Row :=
  ⟨e.table, e.position, e.recordId, e.linkId, e.encode, Chain.link before.digest e.encode⟩

theorem follows_written (before : Chain.Tail) (e : Envelope) (hstorable : e.body.Storable)
    (hposition : e.position.toNat = before.position + 1) (htime : before.createdAt ≤ e.createdAt) :
    Chain.Follows e.table before (written before e) e where
  table := rfl
  position := hposition
  digest := rfl
  content := Envelope.decode_encode hstorable
  contentTable := rfl
  contentPosition := hposition
  recordId := rfl
  linkId := rfl
  time := htime

theorem record_written (before : Chain.Tail) (e : Envelope) (hstorable : e.body.Storable) :
    ∃ c, (written before e).record = .ok c ∧ c.body = e.body := by
  rw [Row.record, show Envelope.decode (written before e).content = .ok e from Envelope.decode_encode hstorable]
  exact ⟨_, rfl, rfl⟩

theorem signal?_written (before : Chain.Tail) {e : Envelope} {s : Signal} (hstorable : e.body.Storable)
    (hs : e.body = .signal s) : (written before e).signal? = some s := by
  obtain ⟨c, hc, hbody⟩ := record_written before e hstorable
  exact Row.signal?_of_record hc (hbody.trans hs)

theorem storable_alerted (id : ℕ) : (Body.signal (alerted id)).Storable where
  dedupeKey := show (Bytes.ofText "alert-1").length < 256 ^ 8 by decide
  symbol := show (Bytes.ofText "BTCUSD").length < 256 ^ 8 by decide
  price := nofun
  quantity := Decimal.storable_iff.2 nofun
  request := show ([] : Bytes).length < 256 ^ 8 by decide
  sourceAddress := nofun

/-- The order that was sent for the first alert. -/
def ordered : Execution := ⟨Uuid.made 2 1, .market, "BTCUSD", .buy, halfCoin, none, none, .submitted⟩

theorem storable_ordered : (Body.execution ordered).Storable where
  symbol := show (Bytes.ofText "BTCUSD").length < 256 ^ 8 by decide
  quantity := Decimal.storable_iff.2 nofun
  price := nofun
  externalOrderId := nofun

/-! ## Rows that agree with their headers -/

def named : Envelope := ⟨.signals, 1, Uuid.made 1 1, Uuid.made 2 1, 0, .signal (alerted 1)⟩

def placed : Envelope := ⟨.orderExecutions, 1, Uuid.made 1 2, Uuid.made 2 1, 0, .execution ordered⟩

def namedRow : Row := written (.empty .signals) named

def placedRow : Row := written (.empty .orderExecutions) placed

/-- An alert, and the order that was sent for it. -/
def traded : Site Flaky where
  store := ⟨(Memory.empty.push namedRow).push placedRow, []⟩
  now := 0
  journal := []
  alerts := []

theorem intact_recovered_traded :
    traded.store.memory.Filled ∧ (∀ t, ∃ tail, Chain.verify t (traded.store.memory.rows.get t) = .intact t tail) ∧
      ∃ w : Running Flaky, Ledger.opened {} .log traded = (.ok w.ledger, w.site) ∧
        Recovered traded.store.memory w ∧ Agreeing traded.store.memory w := by
  have hfilled : traded.store.memory.Filled := (Memory.Filled.empty.push rfl).push rfl
  have hsignals : Chain.Linked .signals [namedRow] ((Chain.Tail.empty .signals).after namedRow named) :=
    Chain.Linked.nil.snoc (follows_written _ named (storable_alerted 1) rfl (by decide))
  have hexecutions :
      Chain.Linked .orderExecutions [placedRow] ((Chain.Tail.empty .orderExecutions).after placedRow placed) :=
    Chain.Linked.nil.snoc (follows_written _ placed storable_ordered rfl (by decide))
  have hintact (t : Table) : ∃ tail, Chain.verify t (traded.store.memory.rows.get t) = .intact t tail := by
    cases t with
    | signals => exact ⟨_, hsignals.verify⟩
    | orderExecutions => exact ⟨_, hexecutions.verify⟩
    | deliberations | orderEvents => exact ⟨.empty _, rfl⟩
  have hlegible (t : Table) : ∀ r ∈ traded.store.memory.rows.get t, r.Legible t := by
    cases t with
    | signals =>
      intro r hr
      cases List.mem_singleton.1 hr
      obtain ⟨c, hc, hbody⟩ := record_written (.empty .signals) named (storable_alerted 1)
      exact ⟨c, hc, hbody ▸ rfl, hbody ▸ rfl⟩
    | orderExecutions =>
      intro r hr
      cases List.mem_singleton.1 hr
      obtain ⟨c, hc, hbody⟩ := record_written (.empty .orderExecutions) placed storable_ordered
      exact ⟨c, hc, hbody ▸ rfl, hbody ▸ rfl⟩
    | deliberations | orderEvents => exact nofun
  obtain ⟨-, w, hopened, hrecovered, hagreeing⟩ := intact_recovered hfilled hintact {} .log
  exact ⟨hfilled, hintact, w, hopened, hrecovered, hagreeing hlegible⟩

/-! ## Rows that do not -/

def misnamed : Envelope := ⟨.signals, 1, Uuid.made 1 1, Uuid.made 2 1, 0, .signal (alerted 2)⟩

def repeated : Envelope := ⟨.signals, 2, Uuid.made 1 2, Uuid.made 2 3, 0, .signal (alerted 3)⟩

def mislaid : Envelope := ⟨.orderExecutions, 1, Uuid.made 1 3, Uuid.made 2 1, 0, .signal (alerted 1)⟩

def misnamedRow : Row := written (.empty .signals) misnamed

def repeatedRow : Row := written ((Chain.Tail.empty .signals).after misnamedRow misnamed) repeated

def mislaidRow : Row := written (.empty .orderExecutions) mislaid

/-- A signal whose header links to another identifier than its body has, the same alert again under a third
one, and a signal among the executions. -/
def forged : Site Flaky where
  store := ⟨((Memory.empty.push misnamedRow).push repeatedRow).push mislaidRow, []⟩
  now := 0
  journal := []
  alerts := []

/-- All tables verify, and yet a signal is known that is not found, something is found under an identifier
that is not known, the alert leads to its last signal only, and what is no execution is known as one. -/
theorem forged_disagrees :
    forged.store.memory.Filled ∧ (∀ t, ∃ tail, Chain.verify t (forged.store.memory.rows.get t) = .intact t tail) ∧
      (∃ r ∈ forged.store.memory.rows.get .signals, ∃ e,
        Envelope.decode r.content = .ok e ∧ e.body.linkId ≠ r.linkId) ∧
      (∃ r ∈ forged.store.memory.rows.get .orderExecutions, ∃ e,
        Envelope.decode r.content = .ok e ∧ e.body.table ≠ .orderExecutions) ∧
      ∃ w : Running Flaky, Ledger.opened {} .log forged = (.ok w.ledger, w.site) ∧
        (w.ledger.index.hasCorrelation (Uuid.made 2 2) = true ∧
          (Query.byCorrelation (Uuid.made 2 2)).answer w = .ok none) ∧
        (w.ledger.index.hasCorrelation (Uuid.made 2 1) = false ∧
          ∃ d, (Query.byCorrelation (Uuid.made 2 1)).answer w = .ok (some d)) ∧
        w.ledger.index.lookup "alert-1" = some (Uuid.made 2 3) ∧
        w.ledger.index.hasExecution (Uuid.made 1 3) = true := by
  have hfilled : forged.store.memory.Filled := ((Memory.Filled.empty.push rfl).push rfl).push rfl
  have hmisnamed : Chain.Linked .signals [misnamedRow] ((Chain.Tail.empty .signals).after misnamedRow misnamed) :=
    Chain.Linked.nil.snoc (follows_written _ misnamed (storable_alerted 2) rfl (by decide))
  have hsignals : Chain.Linked .signals [misnamedRow, repeatedRow] _ :=
    hmisnamed.snoc (follows_written _ repeated (storable_alerted 3) rfl
      (show misnamed.createdAt ≤ repeated.createdAt by decide))
  have hexecutions :
      Chain.Linked .orderExecutions [mislaidRow] ((Chain.Tail.empty .orderExecutions).after mislaidRow mislaid) :=
    Chain.Linked.nil.snoc (follows_written _ mislaid (storable_alerted 1) rfl (by decide))
  have hlinked (t : Table) : ∃ tail, Chain.Linked t (forged.store.memory.rows.get t) tail := by
    cases t with
    | signals => exact ⟨_, hsignals⟩
    | orderExecutions => exact ⟨_, hexecutions⟩
    | deliberations | orderEvents => exact ⟨_, .nil⟩
  choose tail htail using hlinked
  replace htail (t : Table) : Chain.Linked t (forged.store.memory.rows.get t) ((PerTable.ofFn tail).get t) := by
    rw [PerTable.get_ofFn]
    exact htail t
  have hrecorded : recorded (forged.store.memory.rows.get .signals) = [alerted 2, alerted 3] := by
    have hfirst : misnamedRow.signal? = some (alerted 2) := signal?_written (e := misnamed) _ (storable_alerted 2) rfl
    have hsecond : repeatedRow.signal? = some (alerted 3) := signal?_written (e := repeated) _ (storable_alerted 3) rfl
    show [misnamedRow, repeatedRow].filterMap Row.signal? = _
    rw [List.filterMap_cons_some hfirst, List.filterMap_cons_some hsecond, List.filterMap_nil]
  obtain ⟨w, hopened, hrecovered, -⟩ := exists_recovered hfilled htail {} .log
  refine ⟨hfilled, fun t => ⟨_, (htail t).verify⟩,
    ⟨misnamedRow, List.mem_cons_self, _, Envelope.decode_encode (storable_alerted 2), by decide⟩,
    ⟨mislaidRow, List.mem_cons_self, _, Envelope.decode_encode (storable_alerted 1), by decide⟩,
    w, hopened, ?_, ?_, ?_, ?_⟩
  · obtain ⟨d, hd, hsome⟩ := hrecovered.dossiers (Uuid.made 2 2)
    refine ⟨(hrecovered.signals _).2 ⟨alerted 2, by rw [hrecorded]; exact List.mem_cons_self, rfl⟩, ?_⟩
    have hnone : ¬ ∃ r ∈ [misnamedRow, repeatedRow], r.linkId = Uuid.made 2 2 := by
      rintro ⟨r, hr, hlink⟩
      rcases List.mem_pair.1 hr with rfl | rfl <;> revert hlink <;> decide
    cases d with
    | none => exact hd
    | some _ => exact absurd (hsome.1 rfl) hnone
  · obtain ⟨d, hd, hsome⟩ := hrecovered.dossiers (Uuid.made 2 1)
    obtain ⟨dossier, rfl⟩ := Option.isSome_iff_exists.1 (hsome.2 ⟨misnamedRow, List.mem_cons_self, rfl⟩)
    refine ⟨Bool.eq_false_iff.2 fun hknown => ?_, dossier, hd⟩
    obtain ⟨s, hs, hid⟩ := (hrecovered.signals _).1 hknown
    rw [hrecorded] at hs
    rcases List.mem_pair.1 hs with rfl | rfl <;> revert hid <;> decide
  · rw [hrecovered.keys, hrecorded]
    rfl
  · exact (hrecovered.executions _).2 ⟨mislaidRow, List.mem_cons_self, rfl⟩

end TradeLedger
