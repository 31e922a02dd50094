/-
What records refer to is there. However calls interleave, whichever appends fail and however often
the ledger is opened again: a row is stored only when the signal or the execution that it refers to
has been stored before it, every row says what belongs into its table and links to what its body
links to, and once every call is done the index knows exactly the signals and executions of the rows.

A call refers to something only after the index has known it, and what the index knows is stored
(`known`); from then on the call carries its reference with it (`underway`) until its row is stored.
An execution becomes known only after its row is stored, so in between its call accounts for it
(`registered`).
-/
import TradeLedger.Proofs.Session.Idempotency

namespace TradeLedger

/-! ## What rows hold -/

/-- What is referred to is committed. -/
def Memory.Has (m : Memory) : Reference × Uuid → Prop
  | (.correlation, id) => ∃ r ∈ m.rows.get .signals, ∃ g, r.signal? = some g ∧ g.correlationId = id
  | (.execution, id) => ∃ r ∈ m.rows.get .orderExecutions, r.recordId = id

theorem Memory.Has.mono {m m' : Memory} {ref : Reference × Uuid} (h : m.Has ref)
    (hrows : ∀ t, m.rows.get t <+: m'.rows.get t) : m'.Has ref := by
  obtain ⟨_ | _, id⟩ := ref
  · obtain ⟨r, hr, h⟩ := h
    exact ⟨r, (hrows _).subset hr, h⟩
  · obtain ⟨r, hr, h⟩ := h
    exact ⟨r, (hrows _).subset hr, h⟩

/-- The row says what belongs into its table, and links to what its body links to; and what its body
refers to is committed. -/
def Row.Grounded (m : Memory) (r : Row) : Prop :=
  ∃ e, Envelope.decode r.content = .ok e ∧ e.body.table = r.table ∧ r.linkId = e.body.linkId ∧
    ∀ ref, e.body.reference? = some ref → m.Has ref

/-! ## Executions that are known -/

namespace Index

variable {x : Index} {id : Uuid}

/-- The executions of readable rows become known, and no others. -/
theorem hasExecution_registerRows {rows : List Row} (h : ∀ r ∈ rows, ∃ c, r.record = .ok c ∧ c.recordId = r.recordId) :
    (rows.foldl registerRow x).hasExecution id = true ↔ x.hasExecution id = true ∨ ∃ r ∈ rows, r.recordId = id := by
  induction rows generalizing x with
  | nil => simp
  | cons r rows ih =>
    obtain ⟨c, hc, hid⟩ := h r List.mem_cons_self
    have hrow : x.registerRow r = x.registerExecution r.recordId := by rw [registerRow, hc, ← hid]
    rw [List.foldl_cons, ih fun r hr => h r (List.mem_cons_of_mem _ hr), hrow, hasExecution_registerExecution]
    simp only [List.mem_cons, exists_eq_or_imp, or_assoc]

theorem hasExecution_restoreRows (rows : List Row) :
    (rows.foldl restoreRow x).hasExecution id = x.hasExecution id := by
  induction rows generalizing x with
  | nil => rfl
  | cons r rows ih =>
    rw [List.foldl_cons, ih, restoreRow]
    split <;> rfl

/-- An index that is made of linked rows knows the executions among them. -/
theorem hasExecution_ofMemory {m : Memory} {tail : Chain.Tail}
    (h : Chain.Linked .orderExecutions (m.rows.get .orderExecutions) tail) :
    (ofMemory m).hasExecution id = true ↔ m.Has (.execution, id) := by
  rw [ofMemory, hasExecution_registerRows, hasExecution_restoreRows]
  · exact or_iff_right Bool.false_ne_true
  · intro r hr
    obtain ⟨-, e, he, -, -, hid, -⟩ := h.decodes r hr
    rw [Row.record, he]
    exact ⟨_, rfl, hid⟩

end Index

/-! ## The invariant -/

theorem Body.eq_execution_of_table (b : Body) (h : b.table = .orderExecutions) : ∃ e, b = .execution e := by
  cases b with
  | execution e => exact ⟨e, rfl⟩
  | signal _ | deliberation _ | event _ => cases h

/-- The errand of a call between its checks and its end. -/
def Phase.errand? : Phase → Option Errand
  | .ready e _ _ => some e
  | .flying e _ _ _ => some e
  | .tried e _ _ _ => some e
  | _ => none

/-- The call has stored this execution, and is about to make it known. -/
def Phase.Registers (id : Uuid) (p : Phase) : Prop :=
  ∃ e b receipt left attempts, p = .tried e (.ok receipt) left attempts ∧ e.body = .execution b ∧ receipt.recordId = id

/-- A call that is done has nothing more to make known. -/
theorem Phase.not_registers_of_done {p : Phase} (h : p.isDone = true) (id : Uuid) : ¬ p.Registers id := by
  rintro ⟨e, b, receipt, left, attempts, rfl, -⟩
  cases h

/-- What holds of references at every moment of a session. -/
structure Referring (x : Facts) (calls : List Call) : Prop where
  underway : ∀ c ∈ calls, ∀ e, c.phase.errand? = some e → ∀ ref, e.body.reference? = some ref → x.memory.Has ref
  known : ∀ id, x.index.hasExecution id = true → x.memory.Has (.execution, id)
  registers : ∀ c ∈ calls, ∀ id, c.phase.Registers id → x.memory.Has (.execution, id)
  registered : ∀ r ∈ x.memory.rows.get .orderExecutions,
    x.index.hasExecution r.recordId = true ∨ ∃ c ∈ calls, c.phase.Registers r.recordId

/-- What is known to be a signal is one. -/
theorem Reserved.has_of_hasCorrelation {x : Facts} {calls : List Call} (h : Reserved x calls) {id : Uuid}
    (hid : x.index.hasCorrelation id = true) : x.memory.Has (.correlation, id) := by
  have hget : x.index.correlations.get? id = some .committed := of_decide_eq_true hid
  obtain ⟨hmem, -⟩ := (h.ids.known_iff id .committed Standing.noConfusion).1 hget
  obtain ⟨g, hg, heq⟩ := List.mem_map.1 hmem
  exact exists_mem_recorded.1 ⟨g, hg, congrArg Prod.fst heq⟩

/-- What only differs in the phase of one call. -/
theorem mem_set_cases {calls : List Call} {c d : Call} {i : ℕ} {p : Phase} (hc : calls[i]? = some c) (hd : d ∈ calls) :
    d ∈ calls.set i { c with phase := p } ∨ d = c := by
  obtain ⟨j, hj⟩ := List.mem_iff_getElem?.1 hd
  by_cases hij : i = j
  · subst hij
    exact .inr (Option.some.inj (hj.symm.trans hc))
  · exact .inl (List.mem_of_getElem? (by rw [List.getElem?_set_ne hij, hj]))

namespace Referring

variable {x x' : Facts} {calls : List Call} {c : Call} {i : ℕ} {p : Phase}

theorem start (hmemory : x.memory = .empty) (hindex : x.index = .ofMemory .empty) : Referring x [] where
  underway _ hc := nomatch hc
  known id hid := by rw [hindex] at hid; cases hid
  registers _ hc := nomatch hc
  registered r hr := by rw [hmemory] at hr; cases hr

/-- What is known can be referred to. -/
theorem has_of_knows (h : Referring x calls) (hreserved : Reserved x calls) {ref : Reference × Uuid}
    (hknows : x.index.knows ref = true) : x.memory.Has ref := by
  obtain ⟨_ | _, id⟩ := ref
  · exact hreserved.has_of_hasCorrelation hknows
  · exact h.known id hknows

/-- A step of one call, by what becomes of its errand, of the executions that are known, and of the
execution that it accounts for. -/
theorem set (h : Referring x calls) (hc : calls[i]? = some c) (hrows : ∀ t, x.memory.rows.get t <+: x'.memory.rows.get t)
    (herrand : ∀ e, p.errand? = some e → c.phase.errand? = some e ∨
      ∀ ref, e.body.reference? = some ref → x.memory.Has ref)
    (hindex : ∀ id, x'.index.hasExecution id = true ↔
      x.index.hasExecution id = true ∨ c.phase.Registers id ∧ ¬ p.Registers id)
    (hregisters : ∀ id, p.Registers id → x'.memory.Has (.execution, id))
    (hnew : ∀ r ∈ x'.memory.rows.get .orderExecutions,
      r ∈ x.memory.rows.get .orderExecutions ∨ p.Registers r.recordId) :
    Referring x' (calls.set i { c with phase := p }) := by
  have hcmem := List.mem_of_getElem? hc
  have hself : { c with phase := p } ∈ calls.set i { c with phase := p } :=
    List.mem_of_getElem? (List.getElem?_set_self (List.getElem?_eq_some_iff.1 hc).1)
  refine ⟨fun d hd e he ref href => ?_, fun id hid => ?_, fun d hd id hdid => ?_, fun r hr => ?_⟩
  · rcases List.mem_or_eq_of_mem_set hd with hd | rfl
    · exact (h.underway d hd e he ref href).mono hrows
    · rcases herrand e he with he | hhas
      · exact (h.underway c hcmem e he ref href).mono hrows
      · exact (hhas ref href).mono hrows
  · rcases (hindex id).1 hid with hid | ⟨hid, -⟩
    · exact (h.known id hid).mono hrows
    · exact (h.registers c hcmem id hid).mono hrows
  · rcases List.mem_or_eq_of_mem_set hd with hd | rfl
    · exact (h.registers d hd id hdid).mono hrows
    · exact hregisters id hdid
  · rcases hnew r hr with hr | hr
    · rcases h.registered r hr with hid | ⟨d, hd, hdr⟩
      · exact .inl ((hindex _).2 (.inl hid))
      · rcases mem_set_cases (p := p) hc hd with hd | rfl
        · exact .inr ⟨d, hd, hdr⟩
        · -- the call that accounted for the row still does, or has made it known
          by_cases hp : p.Registers r.recordId
          · exact .inr ⟨_, hself, hp⟩
          · exact .inl ((hindex _).2 (.inr ⟨hdr, hp⟩))
    · exact .inr ⟨_, hself, hr⟩

/-- A step that stores no row and makes no execution known. -/
theorem keep (h : Referring x calls) (hc : calls[i]? = some c) (hmemory : x'.memory = x.memory)
    (hindex : ∀ id, x'.index.hasExecution id = x.index.hasExecution id)
    (herrand : ∀ e, p.errand? = some e → c.phase.errand? = some e ∨
      ∀ ref, e.body.reference? = some ref → x.memory.Has ref)
    (hregisters : ∀ id, p.Registers id ↔ c.phase.Registers id) : Referring x' (calls.set i { c with phase := p }) := by
  refine h.set hc (fun t => by rw [hmemory]) herrand (fun id => ?_) (fun id hid => ?_) fun r hr => ?_
  · rw [hindex, hregisters]
    exact ⟨.inl, fun hid => hid.elim (·) fun hid => absurd hid.1 hid.2⟩
  · rw [hmemory]
    exact h.registers c (List.mem_of_getElem? hc) id ((hregisters id).1 hid)
  · rw [hmemory] at hr
    exact .inl hr

/-- Every step of a call keeps the invariant. -/
theorem step (h : Referring x calls) (hchained : Chained x calls) (hreserved : Reserved x calls)
    (hc : calls[i]? = some c) (hstep : Phase.Step c.submission c.phase x p x') :
    Referring x' (calls.set i { c with phase := p }) := by
  have hfrom := hchained.origin c (List.mem_of_getElem? hc)
  have hrows := hstep.keeps_rows
  generalize hq : c.phase = q at hstep hfrom
  cases hstep with
  | engaged _ _ hknown =>
    refine h.keep hc rfl (fun _ => rfl) (fun e he => .inr ?_) (by simp [hq, Phase.Registers])
    cases he
    exact fun ref href => h.has_of_knows hreserved (hknown ref href)
  | reserved hres =>
    refine h.keep hc rfl (fun id => ?_) (fun e he => .inr ?_) (by simp [hq, Phase.Registers])
    · obtain ⟨-, -, -, -, hindex⟩ := Index.reserveSignal_eq_ok hres
      rw [hindex]
      rfl
    · cases he
      exact nofun
  | @stored _ e s left attempts _ =>
    obtain ⟨-, now, hs⟩ := hchained.flight i e s ⟨c, left, attempts, hc, hq⟩
    have htable : s.row.table = e.body.table := by rw [hs, Engine.table_follow]
    refine h.set hc hrows (fun e' he => .inl (by rw [hq]; exact he)) (fun id => ?_) ?_ fun r hr => ?_
    · simp [hq, Phase.Registers]
    · rintro id ⟨e', b, receipt, left', attempts', ⟨⟩, hbody, rfl⟩
      refine ⟨s.row, ?_, rfl⟩
      rw [Memory.rows_push, if_pos (by rw [htable, hbody]; rfl)]
      exact List.mem_append_right _ List.mem_cons_self
    · rw [Memory.rows_push] at hr
      split_ifs at hr with ht
      · refine (List.mem_append.1 hr).imp_right fun hr => ?_
        cases List.mem_singleton.1 hr
        obtain ⟨b, hb⟩ := e.body.eq_execution_of_table (ht.trans htable).symm
        exact ⟨e, b, s.receipt, left, attempts, rfl, hb, rfl⟩
      · exact .inl hr
  | @registered _ e b receipt left attempts hres hbody =>
    refine h.set hc hrows (fun e' he => by cases he) (fun id => ?_) ?_ fun r hr => .inl hr
    · rw [Index.hasExecution_registerExecution]
      simp [hq, Phase.Registers, hbody]
    · rintro id ⟨e', b', receipt', left', attempts', ⟨⟩, -⟩
  | @concluded _ e r left attempts hres hno =>
    refine h.keep hc rfl (fun _ => rfl) (fun e he => by cases he) fun id => iff_of_false ?_ ?_
    · rintro ⟨e', b, receipt, left', attempts', ⟨⟩, -⟩
    · rw [hq]
      rintro ⟨e', b, receipt, left', attempts', ⟨⟩, hbody, -⟩
      exact hno receipt b rfl hbody
  | @committed _ e res receipt left attempts hres =>
    obtain ⟨-, s, -, -, hsignal, -⟩ := Submission.Becomes.reservation hfrom hres
    refine h.keep hc rfl (fun _ => rfl) (fun e he => by cases he) fun id => iff_of_false ?_ ?_
    · rintro ⟨e', b, receipt, left', attempts', ⟨⟩, -⟩
    · -- what has a reservation is a signal
      rw [hq]
      rintro ⟨e', b, receipt, left', attempts', ⟨⟩, hbody, -⟩
      rw [hsignal] at hbody
      cases hbody
  | released _ =>
    refine h.keep hc rfl (fun _ => rfl) (fun e he => ?_) (by simp [hq, Phase.Registers])
    cases he
  | vetted _ | refused _ | unreserved _ | unengaged _ _ | idle =>
    exact h.keep hc rfl (fun _ => rfl) (fun e he => by cases he) (by simp [hq, Phase.Registers])
  | stamped _ | contended _ | lost _ | again _ _ =>
    exact h.keep hc rfl (fun _ => rfl) (fun e he => .inl (by rw [hq]; exact he)) (by simp [hq, Phase.Registers])

theorem call (h : Referring x calls) (sub : Submission) : Referring x (calls ++ [⟨sub, .asked⟩]) := by
  have hnew {d : Call} (hd : d ∈ calls ++ [⟨sub, .asked⟩]) : d ∈ calls ∨ d.phase = .asked := by
    refine (List.mem_append.1 hd).imp_right fun hd => ?_
    rw [List.mem_singleton.1 hd]
  refine ⟨fun d hd e he => ?_, h.known, fun d hd id hid => ?_, fun r hr => ?_⟩
  · rcases hnew hd with hd | hd
    · exact h.underway d hd e he
    · rw [hd] at he; cases he
  · rcases hnew hd with hd | hd
    · exact h.registers d hd id hid
    · rw [hd] at hid
      obtain ⟨e, b, receipt, left, attempts, ⟨⟩, -⟩ := hid
  · exact (h.registered r hr).imp_right fun ⟨d, hd, hdr⟩ => ⟨d, List.mem_append_left _ hd, hdr⟩

/-- Every move keeps the invariant. -/
theorem move {calls' : List Call} (h : Referring x calls) (hchained : Chained x calls) (hreserved : Reserved x calls)
    (hmove : Move x calls x' calls') : Referring x' calls' := by
  cases hmove with
  | call c => exact h.call c
  | step hc hstep => exact h.step hchained hreserved hc hstep
  | clock now => exact ⟨h.underway, h.known, h.registers, h.registered⟩
  | held t held _ => exact ⟨h.underway, h.known, h.registers, h.registered⟩
  | reopened _ _ hdone =>
    have hknown (id : Uuid) : (Index.ofMemory x.memory).hasExecution id = true ↔ x.memory.Has (.execution, id) :=
      Index.hasExecution_ofMemory (hchained.linked .orderExecutions)
    exact ⟨h.underway, fun id => (hknown id).1, h.registers, fun r hr => .inl ((hknown _).2 ⟨r, hr, rfl⟩)⟩

/-- An execution that no call is about to make known is known exactly if its row is stored. -/
theorem hasExecution_iff_of_registered (h : Referring x calls) {id : Uuid} (hid : ∀ c ∈ calls, ¬ c.phase.Registers id) :
    x.index.hasExecution id = true ↔ x.memory.Has (.execution, id) := by
  refine ⟨h.known id, ?_⟩
  rintro ⟨r, hr, rfl⟩
  refine (h.registered r hr).resolve_right ?_
  rintro ⟨c, hc, hregisters⟩
  exact hid c hc hregisters

/-- Once every call is done, exactly the executions of rows are known. -/
theorem hasExecution_iff (h : Referring x calls) (hdone : ∀ c ∈ calls, c.phase.isDone = true) (id : Uuid) :
    x.index.hasExecution id = true ↔ x.memory.Has (.execution, id) :=
  h.hasExecution_iff_of_registered fun c hc => Phase.not_registers_of_done (hdone c hc) id

end Referring

/-- A signal whose identifier no call holds is known exactly if its row is stored. -/
theorem Reserved.hasCorrelation_iff_of_unheld {x : Facts} {calls : List Call} (h : Reserved x calls) {id : Uuid}
    (hid : UnheldId calls id) : x.index.hasCorrelation id = true ↔ x.memory.Has (.correlation, id) := by
  refine ⟨h.has_of_hasCorrelation, ?_⟩
  rintro ⟨r, hr, g, hg, rfl⟩
  refine decide_eq_true ((h.ids.known_iff _ _ Standing.noConfusion).2 ⟨?_, unheldId_iff.1 hid⟩)
  exact List.mem_map.2 ⟨g, List.mem_filterMap.2 ⟨r, hr, hg⟩, rfl⟩

/-- Once every call is done, exactly the signals of rows are known. -/
theorem Reserved.hasCorrelation_iff {x : Facts} {calls : List Call} (h : Reserved x calls)
    (hdone : ∀ c ∈ calls, c.phase.isDone = true) (id : Uuid) :
    x.index.hasCorrelation id = true ↔ x.memory.Has (.correlation, id) :=
  h.hasCorrelation_iff_of_unheld (unheldId_of_done hdone id)

/-! ## The row of a call -/

/-- A step stores nothing, or the row that the call has on its way. -/
theorem Phase.Step.memory_cases {c : Submission} {p p' : Phase} {x x' : Facts} (h : Step c p x p' x') :
    (x'.memory = x.memory ∧ p'.succeeded = p.succeeded) ∨
      ∃ e s left attempts, p = .flying e s left attempts ∧ p' = .tried e (.ok s.receipt) left attempts ∧
        x'.memory = x.memory.push s.row := by
  cases h with
  | stored _ => exact .inr ⟨_, _, _, _, rfl, rfl, rfl⟩
  | _ => exact .inl ⟨rfl, rfl⟩

/-- An attempt waits for its table as long as the settings say. -/
def Facts.Timely (x : Facts) : Prop := x.engine.lockTimeout = x.settings.chain.lockTimeout

theorem Phase.Step.timely {c : Submission} {p p' : Phase} {x x' : Facts} (h : Step c p x p' x') (hx : x.Timely) :
    x'.Timely := by
  cases h <;> exact hx

theorem Move.timely {x x' : Facts} {calls calls' : List Call} (h : Move x calls x' calls') (hx : x.Timely) :
    x'.Timely := by
  cases h with
  | step _ hstep => exact hstep.timely hx
  | call _ | clock _ | held _ _ _ => exact hx
  | reopened _ _ _ => exact rfl

/-- Everything that holds at every moment of a session. -/
structure Recording (x : Facts) (calls : List Call) : Prop where
  chained : Chained x calls
  reserved : Reserved x calls
  referring : Referring x calls
  timely : x.Timely

namespace Recording

variable {x x' : Facts} {calls calls' : List Call} {c : Call} {i : ℕ}

theorem move (h : Recording x calls) (hmove : Move x calls x' calls') : Recording x' calls' where
  chained := h.chained.move hmove
  reserved := h.reserved.move h.chained hmove
  referring := h.referring.move h.chained h.reserved hmove
  timely := hmove.timely h.timely

/-- A row that is about to be stored refers to what is committed. -/
theorem grounded {e : Errand} {s : Stamp} {left attempts : ℕ} (h : Recording x calls) (hc : calls[i]? = some c)
    (hphase : c.phase = .flying e s left attempts) : s.row.Grounded x.memory := by
  obtain ⟨-, now, hs⟩ := h.chained.flight i e s ⟨c, left, attempts, hc, hphase⟩
  have hstorable := (h.chained.becomes hc hphase).storable
  rw [hs]
  refine ⟨_, Envelope.decode_encode hstorable, rfl, rfl, ?_⟩
  exact h.referring.underway c (List.mem_of_getElem? hc) e (by rw [hphase]; rfl)

end Recording

namespace Session

variable {s : Session Flaky}

/-- What a session has stored. -/
def memory (s : Session Flaky) : Memory := s.running.site.store.memory

/-- Everything that holds at every moment holds of the session. -/
def Recorded (s : Session Flaky) : Prop := Recording s.running.facts s.calls

theorem Recorded.of_reaches {s' : Session Flaky} (h : s.Recorded) (hreaches : s.Reaches s') : s'.Recorded :=
  hreaches.keeps (P := Recording) (fun hmove h => h.move hmove) h

theorem Recorded.step (h : s.Recorded) (e : Event) : (s.step e).Recorded :=
  h.of_reaches (reaches_step h.chained.linked e)

theorem Recorded.run (h : s.Recorded) (events : List Event) : (s.run events).Recorded := by
  induction events generalizing s with
  | nil => exact h
  | cons e events ih => exact ih (h.step e)

/-- A step of a call stores nothing, or the first row of the call, which refers to what is committed. -/
theorem memory_advance (h : s.Recorded) {i : ℕ} {c : Call} (hc : s.calls[i]? = some c) :
    ∃ p, (s.advance i).calls[i]? = some { c with phase := p } ∧
      (((s.advance i).memory = s.memory ∧ p.succeeded = c.phase.succeeded) ∨
        c.phase.succeeded = false ∧ p.succeeded = true ∧
          ∃ r, r.Grounded s.memory ∧ (s.advance i).memory = s.memory.push r) := by
  have hi := (List.getElem?_eq_some_iff.1 hc).1
  have hstep := Phase.step_advance c.submission s.running c.phase
  have hadvance : s.advance i = ⟨(c.phase.advance c.submission s.running).2,
      s.calls.set i { c with phase := (c.phase.advance c.submission s.running).1 }⟩ := by
    unfold advance
    rw [hc]
  rw [hadvance]
  refine ⟨_, List.getElem?_set_self hi, ?_⟩
  rcases hstep.memory_cases with hsame | ⟨e, st, left, attempts, hphase, hp, hmemory⟩
  · exact .inl hsame
  · refine .inr ⟨by rw [hphase]; rfl, by rw [hp]; rfl, st.row, ?_, hmemory⟩
    exact Recording.grounded h hc hphase

/-- So do its steps together. -/
theorem memory_iterate_advance (h : s.Recorded) {i : ℕ} {c : Call} (hc : s.calls[i]? = some c)
    (hnew : c.phase.succeeded = false) (n : ℕ) :
    ∃ p, ((advance i)^[n] s).calls[i]? = some { c with phase := p } ∧
      ((((advance i)^[n] s).memory = s.memory ∧ p.succeeded = false) ∨
        p.succeeded = true ∧ ∃ r, r.Grounded s.memory ∧ ((advance i)^[n] s).memory = s.memory.push r) := by
  induction n with
  | zero => exact ⟨c.phase, hc, .inl ⟨rfl, hnew⟩⟩
  | succ n ih =>
    obtain ⟨p, hp, hold⟩ := ih
    obtain ⟨p', hp', hstep⟩ := memory_advance (h.of_reaches (reaches_iterate_advance i n s)) hp
    rw [Function.iterate_succ_apply']
    refine ⟨p', hp', ?_⟩
    rcases hstep with ⟨hmemory, hsucc⟩ | ⟨hbefore, hafter, r, hr, hmemory⟩
    · rw [hmemory, hsucc]
      exact hold
    · -- a call whose row is stored does not store another
      rcases hold with ⟨hsame, -⟩ | ⟨hsucc, -⟩
      · rw [hsame] at hr hmemory
        exact .inr ⟨hafter, r, hr, hmemory⟩
      · rw [hbefore] at hsucc
        cases hsucc

/-- An event stores nothing, or one row, which refers to what was committed before. -/
theorem memory_step (h : s.Recorded) (e : Event) :
    (s.step e).memory = s.memory ∨ ∃ r, r.Grounded s.memory ∧ (s.step e).memory = s.memory.push r := by
  cases e with
  | call c => exact .inl rfl
  | advance i =>
    cases hc : s.calls[i]? with
    | none =>
      have : s.advance i = s := by unfold advance; rw [hc]
      exact .inl (congrArg memory this)
    | some c =>
      obtain ⟨p, -, hsame | hstored⟩ := memory_advance h hc
      · exact .inl hsame.1
      · exact .inr hstored.2.2
  | append c =>
    obtain ⟨n, hn⟩ := append_eq_iterate s c
    have hcall : (s.call c).Recorded := h.of_reaches (.single (.call c))
    have hc : (s.call c).calls[s.calls.length]? = some ⟨c, .asked⟩ := List.getElem?_concat_length
    obtain ⟨p, -, hsame | hstored⟩ := memory_iterate_advance hcall hc rfl n
    · exact .inl ((congrArg memory hn).trans hsame.1)
    · obtain ⟨-, r, hr, hmemory⟩ := hstored
      exact .inr ⟨r, hr, (congrArg memory hn).trans hmemory⟩
  | query q => exact .inl (congrArg Facts.memory (q.facts_ask h.chained.linked))
  | clock now => exact .inl rfl
  | hold t => exact .inl rfl
  | free t =>
    rw [step]
    split <;> exact .inl rfl
  | reopen settings sink =>
    rw [step]
    split
    · obtain ⟨w, hopened, hw⟩ := Ledger.opened_of_linked h.chained.linked settings sink
      refine .inl ?_
      unfold reopen
      simp only [show Ledger.opened settings sink s.running.site = _ from hopened]
      exact congrArg Facts.memory hw
    · exact .inl rfl

/-- Every row was stored by one event, and refers to what was committed before that. -/
theorem exists_stored (h : s.Recorded) (hempty : ∀ t, s.rows t = []) (events : List Event) {t : Table} {i : ℕ} {r : Row}
    (hr : ((s.run events).rows t)[i]? = some r) :
    ∃ earlier e later, events = earlier ++ e :: later ∧ ((s.run earlier).rows t)[i]? = none ∧
      ((s.run (earlier ++ [e])).rows t)[i]? = some r ∧ r.Grounded (s.run earlier).memory := by
  induction events using List.reverseRecOn with
  | nil =>
    rw [show s.run [] = s from rfl, hempty] at hr
    cases hr
  | append_singleton events e ih =>
    have hrun : s.run (events ++ [e]) = (s.run events).step e := List.foldl_append ..
    rcases memory_step (h.run events) e with hsame | ⟨r', hgrounded, hmemory⟩
    · rw [hrun, show ((s.run events).step e).rows t = (s.run events).rows t from congrArg (·.rows.get t) hsame] at hr
      obtain ⟨earlier, e', later, rfl, h'⟩ := ih hr
      exact ⟨earlier, e', later ++ [e], by simp, h'⟩
    · have hrows : ((s.run events).step e).rows t =
          if t = r'.table then (s.run events).rows t ++ [r'] else (s.run events).rows t := by
        show ((s.run events).step e).memory.rows.get t = _
        rw [hmemory, Memory.rows_push]
        rfl
      by_cases hold : ((s.run events).rows t)[i]? = some r
      · obtain ⟨earlier, e', later, rfl, h'⟩ := ih hold
        exact ⟨earlier, e', later ++ [e], by simp, h'⟩
      · -- a row that was not there before is the one that was stored
        have hnew : ((s.run events).rows t)[i]? = none ∧ r = r' := by
          rw [hrun, hrows] at hr
          split_ifs at hr
          · rw [List.getElem?_append] at hr
            split_ifs at hr with hi
            · exact absurd hr hold
            · rw [List.getElem?_singleton] at hr
              split_ifs at hr
              exact ⟨List.getElem?_eq_none (by omega), (Option.some.inj hr).symm⟩
          · exact absurd hr hold
        exact ⟨events, e, [], rfl, hnew.1, hr, hnew.2 ▸ hgrounded⟩

/-! ## References of a session -/

/-- Records are stored behind what they refer to, and the index knows what is stored. -/
structure Consistent (s₀ : Session Flaky) (events : List Event) : Prop where
  /-- Every row says what belongs into its table, and links to what its body links to. -/
  kinds : ∀ t, ∀ r ∈ (s₀.run events).rows t,
    ∃ e, Envelope.decode r.content = .ok e ∧ e.body.table = t ∧ r.linkId = e.body.linkId
  /-- Every row was stored by one of the events, before which what the row refers to was committed. -/
  stored : ∀ (t : Table) (i : ℕ) (r : Row), ((s₀.run events).rows t)[i]? = some r →
    ∃ earlier e later, events = earlier ++ e :: later ∧ ((s₀.run earlier).rows t)[i]? = none ∧
      ((s₀.run (earlier ++ [e])).rows t)[i]? = some r ∧
      ∃ env, Envelope.decode r.content = .ok env ∧
        ∀ ref, env.body.reference? = some ref → (s₀.run earlier).memory.Has ref
  /-- Once every call is done, the signals that are known are those of the rows. -/
  signals : (s₀.run events).quiet = true → ∀ id,
    (s₀.run events).running.ledger.index.hasCorrelation id = true ↔
      ∃ r ∈ (s₀.run events).rows .signals, ∃ g, r.signal? = some g ∧ g.correlationId = id
  /-- Then the executions that are known are those of the rows. -/
  executions : (s₀.run events).quiet = true → ∀ id,
    (s₀.run events).running.ledger.index.hasExecution id = true ↔
      ∃ r ∈ (s₀.run events).rows .orderExecutions, r.recordId = id
  /-- Then a dedupe key leads to the signal that has it. -/
  keys : (s₀.run events).quiet = true → ∀ key id,
    (s₀.run events).running.ledger.index.lookup key = some id ↔
      ∃ r ∈ (s₀.run events).rows .signals, ∃ g, r.signal? = some g ∧ g.dedupeKey = key ∧ g.correlationId = id

theorem consistent_of_recorded (h : s.Recorded) (hempty : ∀ t, s.rows t = []) (events : List Event) :
    s.Consistent events where
  kinds t r hr := by
    obtain ⟨i, hi⟩ := List.mem_iff_getElem?.1 hr
    obtain ⟨-, -, -, -, -, -, e, he, htable, hlink, -⟩ := exists_stored h hempty events hi
    obtain ⟨ht, -⟩ := ((h.run events).chained.linked t).decodes r hr
    exact ⟨e, he, htable.trans ht, hlink⟩
  stored t i r hr := by
    obtain ⟨earlier, e, later, hevents, hbefore, hafter, env, henv, -, -, hrefers⟩ := exists_stored h hempty events hr
    exact ⟨earlier, e, later, hevents, hbefore, hafter, env, henv, hrefers⟩
  signals hq id := (h.run events).reserved.hasCorrelation_iff (List.all_eq_true.1 hq) id
  executions hq id := (h.run events).referring.hasExecution_iff (List.all_eq_true.1 hq) id
  keys hq key id :=
    ((h.run events).reserved.lookup_eq_some_iff (List.all_eq_true.1 hq) key id).trans exists_mem_recorded

/-- A ledger opens over an empty store, and everything holds of it that holds at every moment. -/
theorem recorded_of_opened (settings : Settings) (sink : Sink) (faults : List (Option Failure)) (now : Instant) :
    ∃ w : Running Flaky,
      Ledger.opened settings sink { store := ⟨.empty, faults⟩, now, journal := [], alerts := [] } =
        (.ok w.ledger, w.site) ∧
      (⟨w, []⟩ : Session Flaky).Recorded ∧ ∀ t, (⟨w, []⟩ : Session Flaky).rows t = [] := by
  have hrows (t : Table) : Memory.empty.rows.get t = [] := by rw [Memory.empty, PerTable.get_ofFn]
  let site : Site Flaky := { store := ⟨.empty, faults⟩, now, journal := [], alerts := [] }
  have hlinked (t : Table) :
      Chain.Linked t (site.store.memory.rows.get t) ((PerTable.ofFn Chain.Tail.empty).get t) := by
    rw [PerTable.get_ofFn, show site.store.memory.rows.get t = [] from hrows t]
    exact .nil
  obtain ⟨w, hopened, hw⟩ := Ledger.opened_of_linked hlinked settings sink
  refine ⟨w, hopened, ?_, fun t => ?_⟩
  · show Recording w.facts []
    rw [hw]
    exact ⟨.start hlinked rfl, .start rfl rfl, .start rfl rfl, rfl⟩
  · show w.facts.memory.rows.get t = []
    rw [hw]
    exact hrows t

/-- A ledger opens over an empty store, and from then on, whatever calls are made, in whatever order
they take their steps, whichever appends fail and however often the ledger is opened again: records
are stored behind what they refer to, and the index knows what is stored. -/
theorem references_committed (settings : Settings) (sink : Sink) (faults : List (Option Failure)) (now : Instant) :
    ∃ w : Running Flaky,
      Ledger.opened settings sink { store := ⟨.empty, faults⟩, now, journal := [], alerts := [] } =
        (.ok w.ledger, w.site) ∧
      ∀ events, (⟨w, []⟩ : Session Flaky).Consistent events := by
  obtain ⟨w, hopened, hrecorded, hempty⟩ := recorded_of_opened settings sink faults now
  exact ⟨w, hopened, consistent_of_recorded hrecorded hempty⟩

end Session

end TradeLedger
