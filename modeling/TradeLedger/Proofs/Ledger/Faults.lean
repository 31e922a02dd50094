/-
What recovery fails on, over whatever rows a store shows. It reads the last row of each table, and then
every signal and every execution. So what it fails on is a function of the rows alone, the first of the
faults that it meets, and it fails in no other way.
-/
import TradeLedger.Proofs.Ledger.Opening

namespace TradeLedger

/-! ## What a store shows -/

/-- A store that answers what the rows of a table are, and what the last of them is, from the rows that `view`
shows, and stays as it is. -/
structure Store.Shows {σ : Type} [Store σ] (view : σ → PerTable (List Row)) : Prop where
  scan : ∀ t s, Store.scan t s = (.ok ((view s).get t), s)
  tail : Store.Ends view

theorem Memory.shows : Store.Shows Memory.rows := ⟨fun _ _ => rfl, fun _ _ => rfl⟩

/-! ## Faults -/

/-- The content of the row says that it is the row of its place in the table. -/
def Row.Placed (t : Table) (r : Row) : Prop :=
  ∃ e, Envelope.decode r.content = .ok e ∧ e.table = t ∧ e.position = r.position

/-- The row reads as a record. -/
def Row.Reads (r : Row) : Prop := ∃ c, r.record = .ok c

theorem Row.Placed.reads {t : Table} {r : Row} (h : r.Placed t) : r.Reads := by
  obtain ⟨e, he, -⟩ := h
  exact ⟨_, by rw [record, he]; rfl⟩

/-- Behind a chain that verifies, every row is placed. -/
theorem Chain.Linked.placed {t : Table} {rows : List Row} {tail : Tail} (h : Linked t rows tail) :
    ∀ r ∈ rows, r.Placed t := by
  intro r hr
  obtain ⟨-, e, he, htable, hposition, -⟩ := h.decodes r hr
  exact ⟨e, he, htable, hposition⟩

/-- Rows of which one is not placed do not verify. -/
theorem Chain.exists_break {t : Table} {rows : List Row} {r : Row} (hr : r ∈ rows) (h : ¬ r.Placed t) :
    ∃ b, verify t rows = .broken b := by
  cases hv : verify t rows with
  | intact u tail => exact absurd ((linked_of_verify hv).placed r hr) h
  | broken b => exact ⟨b, rfl⟩

/-- A last row that is not placed is blamed on the table that it is the last of. -/
def Row.lastFault (t : Table) (last : Row) : Option Failure :=
  match Engine.tailOf? t last with
  | some _ => none
  | none => some (.chainBroken t last.position.toNat)

/-- A row that does not read is blamed on the table beside its content. -/
def Row.fault (r : Row) : Option Failure :=
  match r.record with
  | .ok _ => none
  | .error _ => some (.chainBroken r.table r.position.toNat)

namespace PerTable

variable (rows : PerTable (List Row))

/-- The first fault among the last rows. -/
def lastFault : Option Failure := Table.all.findSome? fun t => (rows.get t).getLast?.bind (Row.lastFault t)

/-- The first fault among the signals and the executions. -/
def rowFault : Option Failure :=
  (rows.get .signals).findSome? Row.fault <|> (rows.get .orderExecutions).findSome? Row.fault

/-- The first fault that recovery meets. -/
def fault : Option Failure := rows.lastFault <|> rows.rowFault

/-- Nothing in these rows keeps a ledger from taking them up. -/
structure Readable : Prop where
  last : ∀ t r, (rows.get t).getLast? = some r → r.Placed t
  signals : ∀ r ∈ rows.get .signals, r.Reads
  executions : ∀ r ∈ rows.get .orderExecutions, r.Reads

end PerTable

theorem Row.lastFault_eq_none {t : Table} {r : Row} : r.lastFault t = none ↔ r.Placed t := by
  unfold lastFault Engine.tailOf? Placed
  cases hd : Envelope.decode r.content with
  | error d => simp
  | ok e => by_cases h : e.table = t ∧ e.position = r.position <;> simp [h]

theorem Row.lastFault_eq_some {t : Table} {r : Row} {f : Failure} (h : r.lastFault t = some f) :
    ¬ r.Placed t ∧ f = .chainBroken t r.position.toNat := by
  refine ⟨fun hr => ?_, ?_⟩
  · rw [lastFault_eq_none.2 hr] at h
    cases h
  · unfold lastFault at h
    split at h
    · cases h
    · cases h
      rfl

theorem Row.fault_eq_none {r : Row} : r.fault = none ↔ r.Reads := by
  unfold fault Reads
  cases r.record <;> simp

theorem Row.fault_eq_some {r : Row} {f : Failure} (h : r.fault = some f) :
    ¬ r.Reads ∧ f = .chainBroken r.table r.position.toNat := by
  refine ⟨fun hr => ?_, ?_⟩
  · rw [fault_eq_none.2 hr] at h
    cases h
  · unfold fault at h
    split at h
    · cases h
    · cases h
      rfl

namespace PerTable

variable {rows : PerTable (List Row)}

theorem lastFault_eq_none : rows.lastFault = none ↔ ∀ t r, (rows.get t).getLast? = some r → r.Placed t := by
  simp only [lastFault, List.findSome?_eq_none_iff, Option.bind_eq_none_iff, Row.lastFault_eq_none]
  exact ⟨fun h t => h t (Table.mem_all t), fun h t _ => h t⟩

theorem rowFault_eq_none :
    rows.rowFault = none ↔ (∀ r ∈ rows.get .signals, r.Reads) ∧ ∀ r ∈ rows.get .orderExecutions, r.Reads := by
  simp only [rowFault, Option.orElse_eq_none, List.findSome?_eq_none_iff, Row.fault_eq_none]

theorem fault_eq_none : rows.fault = none ↔ rows.Readable := by
  rw [fault, Option.orElse_eq_none, lastFault_eq_none, rowFault_eq_none]
  exact ⟨fun ⟨h, h', h''⟩ => ⟨h, h', h''⟩, fun h => ⟨h.last, h.signals, h.executions⟩⟩

/-- The first row that recovery cannot read: the row `r`, met among those of the table `u`, and taken for a row
of the table `t`. -/
inductive Unread (rows : PerTable (List Row)) : (u : Table) → (r : Row) → (t : Table) → Prop where
  | last {u : Table} {r : Row} {before after : List Table} : Table.all = before ++ u :: after →
      (∀ t ∈ before, ∀ x, (rows.get t).getLast? = some x → x.Placed t) →
      (rows.get u).getLast? = some r → ¬ r.Placed u → Unread rows u r u
  | signal {r : Row} {front later : List Row} : (∀ t x, (rows.get t).getLast? = some x → x.Placed t) →
      rows.get .signals = front ++ r :: later → (∀ x ∈ front, x.Reads) → ¬ r.Reads → Unread rows .signals r r.table
  | execution {r : Row} {front later : List Row} : (∀ t x, (rows.get t).getLast? = some x → x.Placed t) →
      (∀ x ∈ rows.get .signals, x.Reads) →
      rows.get .orderExecutions = front ++ r :: later → (∀ x ∈ front, x.Reads) → ¬ r.Reads →
      Unread rows .orderExecutions r r.table

/-- The first fault is that of the first row that cannot be read, and blames the table that it is taken for a
row of. -/
theorem unread_of_fault {f : Failure} (h : rows.fault = some f) :
    ∃ u r t, Unread rows u r t ∧ f = .chainBroken t r.position.toNat := by
  have first {rs : List Row} (h : rs.findSome? Row.fault = some f) :
      ∃ front r later, rs = front ++ r :: later ∧ (∀ x ∈ front, x.Reads) ∧ ¬ r.Reads ∧
        f = .chainBroken r.table r.position.toNat := by
    obtain ⟨front, r, later, hrs, hr, hfront⟩ := List.findSome?_eq_some_iff.1 h
    obtain ⟨hunread, hf⟩ := Row.fault_eq_some hr
    exact ⟨front, r, later, hrs, fun x hx => Row.fault_eq_none.1 (hfront x hx), hunread, hf⟩
  unfold fault at h
  cases hlast : rows.lastFault with
  | some g =>
    rw [hlast] at h
    cases h
    obtain ⟨before, u, after, hall, hu, hbefore⟩ := List.findSome?_eq_some_iff.1 hlast
    obtain ⟨r, hr, hfault⟩ := Option.bind_eq_some_iff.1 hu
    obtain ⟨hunplaced, hf⟩ := Row.lastFault_eq_some hfault
    refine ⟨u, r, u, .last hall (fun t ht x hx => ?_) hr hunplaced, hf⟩
    exact Row.lastFault_eq_none.1 (Option.bind_eq_none_iff.1 (hbefore t ht) x hx)
  | none =>
    rw [hlast] at h
    have hplaced := lastFault_eq_none.1 hlast
    replace h : rows.rowFault = some f := h
    unfold rowFault at h
    cases hsignals : (rows.get .signals).findSome? Row.fault with
    | some g =>
      rw [hsignals] at h
      cases h
      obtain ⟨front, r, later, hrows, hfront, hr, hf⟩ := first hsignals
      exact ⟨_, r, _, .signal hplaced hrows hfront hr, hf⟩
    | none =>
      rw [hsignals] at h
      obtain ⟨front, r, later, hrows, hfront, hr, hf⟩ := first h
      refine ⟨_, r, _, .execution hplaced (fun x hx => ?_) hrows hfront hr, hf⟩
      exact Row.fault_eq_none.1 (List.findSome?_eq_none_iff.1 hsignals x hx)

/-- It is a row of the table that it was met in, and not placed there. -/
theorem Unread.mem {u t : Table} {r : Row} (h : Unread rows u r t) : r ∈ rows.get u ∧ ¬ r.Placed u := by
  cases h with
  | last _ _ hr hunplaced => exact ⟨List.mem_of_getLast? hr, hunplaced⟩
  | signal _ hrows _ hr => exact ⟨by rw [hrows]; simp, fun h => hr h.reads⟩
  | execution _ _ hrows _ hr => exact ⟨by rw [hrows]; simp, fun h => hr h.reads⟩

end PerTable

/-! ## Programs that fail on faults alone -/

section Faults

variable {σ α β : Type}

/-- At a site with this store, the program fails on this fault, or succeeds if there is none. It leaves the
store as it is. -/
def Act.Meets (store : σ) (fault : Option Failure) (act : Act σ α) : Prop :=
  ∀ site : Site σ, site.store = store →
    (act site).2.store = store ∧
      match fault with
      | none => ∃ a, (act site).1 = .ok a
      | some f => (act site).1 = .error f

namespace Act.Meets

variable {store : σ}

theorem pure (a : α) : Meets store none (Pure.pure a : Act σ α) := fun _ hs => ⟨hs, a, rfl⟩

theorem throw (f : Failure) : Meets store (some f) (MonadExcept.throw f : Act σ α) := fun _ hs => ⟨hs, rfl⟩

theorem note (n : Notice) : Meets store none (Act.note n) := fun _ hs => ⟨hs, (), rfl⟩

theorem bind {x : Act σ α} {f : α → Act σ β} {fault fault' : Option Failure} (hx : Meets store fault x)
    (hf : ∀ a, Meets store fault' (f a)) : Meets store (fault <|> fault') (x >>= f) := by
  intro site hs
  have hfirst := hx site hs
  rw [bind_apply]
  cases h : x site with
  | mk answer site' =>
    rw [h] at hfirst
    obtain ⟨hs', hanswer⟩ := hfirst
    cases fault with
    | none =>
      obtain ⟨a, rfl⟩ := hanswer
      exact hf a site' hs'
    | some e =>
      cases hanswer
      exact ⟨hs', rfl⟩

/-- What follows succeeds. -/
theorem andThen {x : Act σ α} {f : α → Act σ β} {fault : Option Failure} (hx : Meets store fault x)
    (hf : ∀ a, Meets store none (f a)) : Meets store fault (x >>= f) := by
  have h := hx.bind hf
  cases fault <;> exact h

/-- What is read of the store is known. -/
theorem read {ask : σ → Except Failure α × σ} {a : α} (hask : ask store = (.ok a, store)) {f : α → Act σ β}
    {fault : Option Failure} (hf : Meets store fault (f a)) : Meets store fault (Act.ask ask >>= f) := by
  intro site hs
  have hread : (Act.ask ask : Act σ α) site = (.ok a, site) := by
    subst hs
    show site.ask ask = _
    rw [Site.ask, hask]
  rw [bind_apply_ok hread]
  exact hf site hs

/-- Step after step, the first fault is met. -/
theorem foldlM {f : β → α → Act σ β} {fault : α → Option Failure} (hf : ∀ b a, Meets store (fault a) (f b a))
    (as : List α) (b : β) : Meets store (as.findSome? fault) (as.foldlM f b) := by
  induction as generalizing b with
  | nil => exact pure b
  | cons a as ih =>
    have hcons : (a :: as).findSome? fault = (fault a <|> as.findSome? fault) := by
      rw [List.findSome?_cons]
      cases fault a <;> rfl
    rw [hcons, List.foldlM_cons]
    exact (hf b a).bind fun b => ih b

end Act.Meets

end Faults

/-! ## Recovery -/

namespace Index

variable {σ : Type} (store : σ)

theorem meets_found (r : Row) : Act.Meets store r.fault (found r) := by
  unfold found Row.fault
  cases r.record with
  | ok c => exact .pure c
  | error damage => exact (Act.Meets.note _).bind fun _ => .throw _

theorem meets_recoverSignal (x : Index) (r : Row) : Act.Meets store r.fault (recoverSignal x r) := by
  refine (meets_found store r).andThen fun c => ?_
  split <;> exact .pure _

theorem meets_recoverExecution (x : Index) (r : Row) : Act.Meets store r.fault (recoverExecution x r) :=
  (meets_found store r).andThen fun _ => .pure _

end Index

section Recovery

variable {σ : Type} [Store σ] {view : σ → PerTable (List Row)} (hshows : Store.Shows view) (store : σ)

include hshows

theorem Engine.meets_recover (lockTimeout : Duration) :
    Act.Meets store (view store).lastFault (recover lockTimeout : Act σ Engine) := by
  refine Act.Meets.foldlM (fun e t => Act.Meets.read (hshows.tail t store) ?_) Table.all _
  cases ((view store).get t).getLast? with
  | none => exact .pure e
  | some last =>
    dsimp only [Option.bind_some, Row.lastFault]
    cases tailOf? t last with
    | some tail => exact (Act.Meets.note _).bind fun _ => .pure _
    | none => exact (Act.Meets.note _).bind fun _ => .throw _

theorem Index.meets_recover :
    Act.Meets store (view store).rowFault (recover : Act σ Index) :=
  .read (hshows.scan .signals store) ((Act.Meets.foldlM (meets_recoverSignal store) _ _).bind fun x =>
    .read (hshows.scan .orderExecutions store) (Act.Meets.foldlM (meets_recoverExecution store) _ x))

/-- Recovery fails on the first fault of the rows, and on nothing else. -/
theorem Work.meets_recovery (lockTimeout : Duration) :
    Act.Meets store (view store).fault (recovery lockTimeout : Act σ (Engine × Index)) :=
  (Engine.meets_recover hshows store lockTimeout).bind fun _ =>
    (Index.meets_recover hshows store).andThen fun _ => .pure _

end Recovery

end TradeLedger
