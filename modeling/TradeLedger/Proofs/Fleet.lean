/-
Any number of engines write to one store, each at its own pace: an engine is made for empty tables or
takes up the chains where the store ends, one table after the other, and an append of one engine may
be stamped long before its row reaches the store. Nothing but the store tells the engines of each
other.

What holds of an engine at any time is that each of its ends is where the rows of the table once
ended: the first rows of the table, as many as the end says, are linked and lead to it. A row that is
stamped for such an end fits behind the rows only if there are no others. The store finds its
position taken in every other case, so that no row ever follows an earlier one than the last.
-/
import TradeLedger.Proofs.Chain.Binding
import TradeLedger.Proofs.Ledger.Opening

namespace TradeLedger

/-! ## The system -/

/-- An engine at work. -/
structure Writer where
  engine : Engine
  /-- The tables whose chains it has still to take up, before it appends. -/
  left : List Table
  /-- The rows that are stamped and not stored yet. -/
  flights : PerTable (Option Stamp)

namespace Writer

/-- A writer with nothing on its way. -/
def waiting (lockTimeout : Duration) (left : List Table) : Writer where
  engine := .fresh lockTimeout
  left
  flights := .ofFn fun _ => none

/-- Takes up the chain of the next table. -/
def takeUp (w : Writer) (site : Site Memory) : Writer × Site Memory :=
  match w.left with
  | [] => (w, site)
  | t :: rest =>
    match (Engine.recoverTable w.engine t : Act Memory Engine) site with
    | (.ok engine, site) => ({ w with engine, left := rest }, site)
    | (.error _, site) => (w, site)

/-- Begins an append, unless one to the same table is under way. -/
def stamp (recordId : Uuid) (body : Body) (w : Writer) (site : Site Memory) : Writer × Site Memory :=
  if w.left ≠ [] then (w, site)
  else
    match w.engine.stamp site.now recordId body with
    | .ok (s, engine) => ({ w with engine, flights := w.flights.set body.table (some s) }, site)
    | .error _ => (w, site)

/-- Ends the append that is under way to a table. -/
def land (t : Table) (w : Writer) (site : Site Memory) : Writer × Site Memory :=
  match w.flights.get t with
  | none => (w, site)
  | some s =>
    let (_, engine, site) := w.engine.complete s site
    ({ w with engine, flights := w.flights.set t none }, site)

end Writer

/-- Engines over one store. -/
structure Fleet where
  site : Site Memory
  writers : List Writer

namespace Fleet

/-- Something happens: an engine is made, an engine goes one step on, or the clock is set. -/
inductive Event where
  | fresh (lockTimeout : Duration)
  | recover (lockTimeout : Duration)
  | takeUp (writer : Nat)
  | stamp (writer : Nat) (recordId : Uuid) (body : Body) (fits : body.Fits)
  | land (writer : Nat) (t : Table)
  | clock (now : Instant)

/-- One of the writers does something. -/
def move (f : Fleet) (writer : Nat) (act : Writer → Site Memory → Writer × Site Memory) : Fleet :=
  match f.writers[writer]? with
  | none => f
  | some w =>
    let (w, site) := act w f.site
    { site, writers := f.writers.set writer w }

def step (f : Fleet) : Event → Fleet
  | .fresh lockTimeout => { f with writers := f.writers ++ [.waiting lockTimeout []] }
  | .recover lockTimeout => { f with writers := f.writers ++ [.waiting lockTimeout Table.all] }
  | .takeUp writer => f.move writer Writer.takeUp
  | .stamp writer recordId body _ => f.move writer (Writer.stamp recordId body)
  | .land writer t => f.move writer (Writer.land t)
  | .clock now => { f with site.now := now }

/-- No engine yet, over tables without rows. -/
def start (now : Instant) : Fleet where
  site := { store := .empty, now, journal := [], alerts := [] }
  writers := []

def run (now : Instant) (events : List Event) : Fleet := events.foldl step (start now)

/-- The rows of a table. -/
def rows (f : Fleet) (t : Table) : List Row := f.site.store.rows.get t

end Fleet

/-! ## Where an engine stands -/

/-- The first rows of a table lead to this end. -/
structure Reached (t : Table) (rows : List Row) (tail : Chain.Tail) : Prop where
  le : tail.position ≤ rows.length
  linked : Chain.Linked t (rows.take tail.position) tail

namespace Reached

variable {t : Table} {rows : List Row} {tail : Chain.Tail}

theorem empty (t : Table) (rows : List Row) : Reached t rows (.empty t) := ⟨Nat.zero_le _, .nil⟩

theorem of_linked (h : Chain.Linked t rows tail) : Reached t rows tail where
  le := h.position_eq.le
  linked := by rw [h.position_eq, List.take_length]; exact h

/-- Rows behind the others take nothing away. -/
theorem append (h : Reached t rows tail) (more : List Row) : Reached t (rows ++ more) tail where
  le := by have := h.le; rw [List.length_append]; omega
  linked := by rw [List.take_append_of_le_length h.le]; exact h.linked

theorem linked_of_eq (h : Reached t rows tail) (hp : tail.position = rows.length) : Chain.Linked t rows tail := by
  have hl := h.linked
  rwa [hp, List.take_length] at hl

end Reached

/-- The end of a chain without rows, or what the row at its position says. -/
def Stands (t : Table) (rows : List Row) (tail : Chain.Tail) : Prop :=
  tail = .empty t ∨
    ∃ r e, 0 < tail.position ∧ rows[tail.position - 1]? = some r ∧ r.position.toNat = tail.position ∧
      r.digest = tail.digest ∧ Envelope.decode r.content = .ok e ∧ e.createdAt = tail.createdAt

theorem Reached.stands {t : Table} {rows : List Row} {tail : Chain.Tail} (h : Reached t rows tail) :
    Stands t rows tail := by
  have hle := h.le
  rcases h.linked.tail_eq with ⟨-, htail⟩ | ⟨r, e, hlast, hdecode, hposition, -, -, htail⟩
  · exact .inl htail
  · have hlength : (rows.take tail.position).length = tail.position := List.length_take_of_le hle
    have hpos : 0 < tail.position := by
      rcases Nat.eq_zero_or_pos tail.position with h0 | h0
      · rw [h0] at hlast; cases hlast
      · exact h0
    refine .inr ⟨r, e, hpos, ?_, by rw [hposition, hlength], ?_, hdecode, ?_⟩
    · rwa [List.getLast?_eq_getElem?, hlength, List.getElem?_take_of_lt (by omega)] at hlast
    · rw [htail]
    · rw [htail]

/-! ## One append -/

/-- A row that memory takes is there, and is logged. -/
theorem Memory.put_of_ok {site : Site Memory} {permit : Table} {r : Row} {m : Memory}
    (h : site.store.append permit r = .ok m) : site.put permit r = (.ok (), { site with store := m }.note (.stored r)) := by
  have happend : Store.append permit r site.store = (.ok r, m) := by simp only [Store.append, h]
  rw [Site.put, Site.ask, happend]

/-- What memory says of a row that it does not take is answered. -/
theorem Memory.put_of_error {site : Site Memory} {permit : Table} {r : Row} {f : Failure}
    (h : site.store.append permit r = .error f) : site.put permit r = (.error f, site) := by
  have happend : Store.append permit r site.store = (.error f, site.store) := by simp only [Store.append, h]
  rw [Site.put, Site.ask, happend]

namespace Engine

variable {e : Engine} {site : Site Memory} {s : Stamp} {t : Table}

/-- The engine's end of a table is where the rows end, and the next row still has a position. -/
def Current (e : Engine) (site : Site Memory) (t : Table) : Prop :=
  (e.tails.get t).position = site.store.size t ∧ site.store.size t + 1 < 2 ^ 64

instance (e : Engine) (site : Site Memory) (t : Table) : Decidable (e.Current site t) :=
  inferInstanceAs (Decidable (_ ∧ _))

/-- How an append to a table ends: the row is stored and ends the chain if the engine's end is
current. Otherwise it is refused as a change of a row that is there, and neither the store nor any
end of the engine changes. -/
structure Settled (e : Engine) (site : Site Memory) (t : Table) (s : Stamp)
    (outcome : Except Failure Receipt × Engine × Site Memory) : Prop where
  stored : e.Current site t → outcome.1 = .ok s.receipt ∧ outcome.2.1.tails = e.tails.set t s.tail ∧
    outcome.2.2.store = site.store.push s.row
  refused : ¬ e.Current site t → outcome.1 = .error (.immutable t .update) ∧ outcome.2.1.tails = e.tails ∧
    outcome.2.2.store = site.store
  released : outcome.2.1.held = e.held.set t false

/-- The row is stamped for the engine's end of the table. -/
def Stamped (e : Engine) (t : Table) (s : Stamp) : Prop :=
  ∃ now recordId body, body.Fits ∧ body.table = t ∧ s = follow (e.tails.get t) now recordId body

theorem Stamped.table (h : e.Stamped t s) : s.row.table = t := by
  obtain ⟨now, recordId, body, -, rfl, rfl⟩ := h
  rfl

theorem Stamped.position (h : e.Stamped t s) :
    s.row.position.toNat = ((e.tails.get t).position + 1) % 2 ^ 64 := by
  obtain ⟨now, recordId, body, -, rfl, rfl⟩ := h
  exact UInt64.toNat_ofNat'

/-- Memory takes a stamped row only behind the last, and else holds another row in its place. -/
theorem Stamped.append (h : e.Stamped t s) (hle : (e.tails.get t).position ≤ site.store.size t) :
    site.store.append t s.row =
      if e.Current site t then .ok (site.store.push s.row) else .error (.immutable t .update) := by
  have htable := h.table
  have hposition := h.position
  rw [Memory.append, htable]
  by_cases hc : e.Current site t
  · obtain ⟨hp, hlt⟩ := hc
    rw [hp, Nat.mod_eq_of_lt hlt] at hposition
    simp only [not_true, if_false, hposition, lt_irrefl, ne_eq]
    rw [if_pos ⟨hp, hlt⟩]
  · -- the position is no later than that behind the last row, and is not that one
    have hbefore : s.row.position.toNat < site.store.size t + 1 := by
      unfold Current at hc
      rw [hposition]
      omega
    simp only [not_true, if_false, hbefore, if_true, hc, ne_eq]

theorem Stamped.settled (h : e.Stamped t s) (hle : (e.tails.get t).position ≤ site.store.size t) :
    e.Settled site t s (e.complete s site) := by
  have happend := h.append hle
  have ht := h.table
  unfold complete
  by_cases hc : e.Current site t
  · rw [if_pos hc] at happend
    rw [ht, Memory.put_of_ok happend]
    exact ⟨fun _ => ⟨rfl, by rw [← ht]; rfl, rfl⟩, fun hn => absurd hc hn, by rw [← ht]; rfl⟩
  · rw [if_neg hc] at happend
    rw [ht, Memory.put_of_error happend]
    exact ⟨fun hy => absurd hy hc, fun _ => ⟨rfl, rfl, rfl⟩, by rw [← ht]; rfl⟩

/-- A row that is taken is linked behind the rows before it, and the end of the chain is the engine's. -/
theorem Stamped.linked (h : e.Stamped t s) (hr : Reached t (site.store.rows.get t) (e.tails.get t))
    (hc : e.Current site t) : Chain.Linked t (site.store.rows.get t ++ [s.row]) s.tail := by
  obtain ⟨hp, hlt⟩ := hc
  have hl := hr.linked_of_eq hp
  obtain ⟨now, recordId, body, hfits, rfl, rfl⟩ := h
  rw [← hp] at hlt
  rw [tail_follow now recordId hlt]
  -- the end of a chain shows nothing of the signs that reading the row back takes away
  exact hl.snoc (e := (envelope _ now recordId body).unsignedZeros) (follows_follow_of_fits now recordId hfits hlt)

/-- A whole append, with nothing of the engine on its way to the table, ends the same way. -/
theorem settled_append (hheld : e.held.get t = false) (hle : (e.tails.get t).position ≤ site.store.size t)
    (recordId : Uuid) {body : Body} (hfits : body.Fits) (ht : body.table = t) :
    ∃ s, e.Stamped t s ∧ e.Settled site t s (e.append recordId body site) := by
  have hstamp : e.stamp site.now recordId body =
      .ok (follow (e.tails.get t) site.now recordId body, { e with held := e.held.set t true }) := by
    rw [stamp, tail, ht, hheld]
    rfl
  have hs : e.Stamped t (follow (e.tails.get t) site.now recordId body) := ⟨_, _, _, hfits, ht, rfl⟩
  -- holding the table changes nothing that the append depends on
  have hs' : Stamped { e with held := e.held.set t true } t (follow (e.tails.get t) site.now recordId body) := hs
  obtain ⟨hstored, hrefused, hreleased⟩ := Stamped.settled hs' (show _ ≤ site.store.size t from hle)
  refine ⟨_, hs, ?_⟩
  rw [append, hstamp]
  refine ⟨hstored, hrefused, hreleased.trans (PerTable.ext_get fun u => ?_)⟩
  by_cases hu : u = t
  · rw [hu, PerTable.get_set_self, PerTable.get_set_self]
  · rw [PerTable.get_set_ne _ _ hu, PerTable.get_set_ne _ _ hu, PerTable.get_set_ne _ _ hu]

end Engine

/-! ## What holds of every fleet -/

/-- Every table of these rows is one chain. -/
def AllLinked (rows : PerTable (List Row)) : Prop := ∀ t, ∃ tail, Chain.Linked t (rows.get t) tail

/-- Rows are added behind others, and nothing else happens to them. -/
def Grown (rows rows' : PerTable (List Row)) : Prop := ∀ t, ∃ more, rows'.get t = rows.get t ++ more

theorem Grown.refl (rows : PerTable (List Row)) : Grown rows rows := fun _ => ⟨[], (List.append_nil _).symm⟩

/-- Every end of an engine was reached in these rows. -/
def Engine.Founded (e : Engine) (rows : PerTable (List Row)) : Prop := ∀ t, Reached t (rows.get t) (e.tails.get t)

theorem Engine.Founded.grown {e : Engine} {rows rows' : PerTable (List Row)} (h : e.Founded rows)
    (hg : Grown rows rows') : e.Founded rows' := by
  intro t
  obtain ⟨more, hmore⟩ := hg t
  rw [hmore]
  exact (h t).append more

/-- What holds of a writer over these rows. -/
structure Writer.Sound (rows : PerTable (List Row)) (w : Writer) : Prop where
  founded : w.engine.Founded rows
  stamped : ∀ t s, w.flights.get t = some s → w.engine.Stamped t s
  held : ∀ t, w.engine.held.get t = (w.flights.get t).isSome
  grounded : w.left = [] ∨ ∀ t, w.flights.get t = none

/-- An append that has ended leaves chains, and ends that were reached. -/
theorem Engine.Settled.kept {e : Engine} {site : Site Memory} {t : Table} {s : Stamp}
    {outcome : Except Failure Receipt × Engine × Site Memory} (h : e.Settled site t s outcome) (hs : e.Stamped t s)
    (hf : e.Founded site.store.rows) (hc : AllLinked site.store.rows) :
    AllLinked outcome.2.2.store.rows ∧ Grown site.store.rows outcome.2.2.store.rows ∧
      outcome.2.1.Founded outcome.2.2.store.rows ∧ ∀ u, u ≠ t → outcome.2.1.tails.get u = e.tails.get u := by
  by_cases hcur : e.Current site t
  · obtain ⟨-, htails, hstore⟩ := h.stored hcur
    have hlinked := hs.linked (hf t) hcur
    have hself : outcome.2.2.store.rows.get t = site.store.rows.get t ++ [s.row] := by
      rw [hstore, Memory.rows_push, hs.table, if_pos rfl]
    have hother (u : Table) (hu : u ≠ t) : outcome.2.2.store.rows.get u = site.store.rows.get u := by
      rw [hstore, Memory.rows_push, hs.table, if_neg hu]
    have hends (u : Table) (hu : u ≠ t) : outcome.2.1.tails.get u = e.tails.get u := by
      rw [htails, PerTable.get_set_ne _ _ hu]
    refine ⟨fun u => ?_, fun u => ?_, fun u => ?_, hends⟩ <;> by_cases hu : u = t
    · rw [hu, hself]; exact ⟨_, hlinked⟩
    · rw [hother u hu]; exact hc u
    · rw [hu, hself]; exact ⟨[s.row], rfl⟩
    · rw [hother u hu]; exact ⟨[], (List.append_nil _).symm⟩
    · rw [hu, hself, htails, PerTable.get_set_self]; exact .of_linked hlinked
    · rw [hother u hu, hends u hu]; exact hf u
  · obtain ⟨-, htails, hstore⟩ := h.refused hcur
    rw [Engine.Founded, hstore, htails]
    exact ⟨hc, .refl _, hf, fun _ _ => rfl⟩

namespace Writer

variable {w : Writer} {site : Site Memory}

theorem Sound.grown {rows rows' : PerTable (List Row)} (h : w.Sound rows) (hg : Grown rows rows') : w.Sound rows' where
  founded := h.founded.grown hg
  stamped := h.stamped
  held := h.held
  grounded := h.grounded

theorem sound_waiting (rows : PerTable (List Row)) (lockTimeout : Duration) (left : List Table) :
    (waiting lockTimeout left).Sound rows where
  founded t := by
    show Reached t _ ((PerTable.ofFn Chain.Tail.empty).get t)
    rw [PerTable.get_ofFn]
    exact .empty t _
  stamped t s hs := by
    replace hs : (PerTable.ofFn fun _ => (none : Option Stamp)).get t = some s := hs
    rw [PerTable.get_ofFn] at hs
    cases hs
  held t := by
    show (PerTable.ofFn fun _ => false).get t = ((PerTable.ofFn fun _ => none).get t).isSome
    rw [PerTable.get_ofFn, PerTable.get_ofFn]
    rfl
  grounded := .inr fun t => PerTable.get_ofFn _ t

/-- What an action of a sound writer over linked rows comes to. -/
structure Kept (site : Site Memory) (after : Writer × Site Memory) : Prop where
  sound : after.1.Sound after.2.store.rows
  linked : AllLinked after.2.store.rows
  grown : Grown site.store.rows after.2.store.rows

theorem Sound.kept (h : w.Sound site.store.rows) (hc : AllLinked site.store.rows) : Kept site (w, site) :=
  ⟨h, hc, .refl _⟩

theorem ends_memory : Store.Ends fun m : Memory => m.rows := fun _ _ => rfl

theorem Sound.takeUp (h : w.Sound site.store.rows) (hc : AllLinked site.store.rows) : Kept site (w.takeUp site) := by
  unfold Writer.takeUp
  split
  · exact h.kept hc
  · rename_i t rest hleft
    obtain ⟨tail, hl⟩ := hc t
    obtain ⟨e, site', hrun, hs, he⟩ := Engine.recoverTable_cases ends_memory hl w.engine
    rw [hrun]
    simp only
    suffices hsound : Sound site.store.rows { w with engine := e, left := rest } by
      exact ⟨by rw [hs.1]; exact hsound, by rw [hs.1]; exact hc, by rw [hs.1]; exact .refl _⟩
    have hnone : ∀ u, w.flights.get u = none := h.grounded.resolve_left (by rw [hleft]; exact List.cons_ne_nil _ _)
    have hstamped {e : Engine} (u : Table) (s : Stamp) (hu : w.flights.get u = some s) : e.Stamped u s := by
      rw [hnone u] at hu; cases hu
    rcases he with rfl | ⟨-, rfl⟩
    · refine ⟨fun u => ?_, hstamped, h.held, .inr hnone⟩
      show Reached u _ ((w.engine.tails.set t tail).get u)
      by_cases hu : u = t
      · rw [hu, PerTable.get_set_self]
        exact .of_linked hl
      · rw [PerTable.get_set_ne _ _ hu]
        exact h.founded u
    · exact ⟨h.founded, hstamped, h.held, .inr hnone⟩

theorem Sound.stamp (h : w.Sound site.store.rows) (hc : AllLinked site.store.rows) (recordId : Uuid) {body : Body}
    (hfits : body.Fits) : Kept site (w.stamp recordId body site) := by
  unfold Writer.stamp
  split_ifs with hleft
  · exact h.kept hc
  · rw [Engine.stamp, Engine.tail]
    by_cases hheld : w.engine.held.get body.table = true
    · rw [if_pos hheld]
      exact h.kept hc
    · rw [if_neg hheld]
      refine ⟨⟨h.founded, fun t s hs => ?_, fun t => ?_, .inl (not_not.1 hleft)⟩, hc, .refl _⟩
      · replace hs : (w.flights.set body.table (some (Engine.follow (w.engine.tails.get body.table) site.now recordId
          body))).get t = some s := hs
        by_cases ht : t = body.table
        · rw [ht, PerTable.get_set_self] at hs
          cases hs
          subst ht
          exact ⟨site.now, recordId, body, hfits, rfl, rfl⟩
        · rw [PerTable.get_set_ne _ _ ht] at hs
          exact h.stamped t s hs
      · show (w.engine.held.set body.table true).get t = ((w.flights.set body.table (some _)).get t).isSome
        by_cases ht : t = body.table
        · rw [ht, PerTable.get_set_self, PerTable.get_set_self]
          rfl
        · rw [PerTable.get_set_ne _ _ ht, PerTable.get_set_ne _ _ ht]
          exact h.held t

theorem Sound.land (h : w.Sound site.store.rows) (hc : AllLinked site.store.rows) (t : Table) :
    Kept site (w.land t site) := by
  unfold Writer.land
  cases hs : w.flights.get t with
  | none => exact h.kept hc
  | some s =>
    have hstamped := h.stamped t s hs
    have hsettled := hstamped.settled (h.founded t).le
    obtain ⟨hlinked, hgrown, hfounded, hends⟩ := hsettled.kept hstamped h.founded hc
    refine ⟨⟨hfounded, fun u s' hu => ?_, fun u => ?_, h.grounded.imp_right fun hnone u => ?_⟩, hlinked, hgrown⟩
    · replace hu : (w.flights.set t none).get u = some s' := hu
      by_cases hut : u = t
      · rw [hut, PerTable.get_set_self] at hu; cases hu
      · rw [PerTable.get_set_ne _ _ hut] at hu
        show Engine.Stamped _ u s'
        rw [Engine.Stamped, hends u hut]
        exact h.stamped u s' hu
    · show (w.engine.complete s site).2.1.held.get u = ((w.flights.set t none).get u).isSome
      rw [hsettled.released]
      by_cases hut : u = t
      · rw [hut, PerTable.get_set_self, PerTable.get_set_self]; rfl
      · rw [PerTable.get_set_ne _ _ hut, PerTable.get_set_ne _ _ hut]
        exact h.held u
    · rw [hnone t] at hs; cases hs

/-- A recovery that nothing comes between takes up one table after the other. -/
theorem takeUp_iterate {ts : List Table} {e : Engine} {site' : Site Memory} (hleft : w.left = ts)
    (h : (ts.foldlM Engine.recoverTable w.engine : Act Memory Engine) site = (.ok e, site')) :
    (fun p : Writer × Site Memory => p.1.takeUp p.2)^[ts.length] (w, site) =
      ({ w with engine := e, left := [] }, site') := by
  induction ts generalizing w site with
  | nil =>
    cases h
    cases w
    cases hleft
    rfl
  | cons t ts ih =>
    rw [List.foldlM_cons] at h
    obtain ⟨e₁, site₁, h₁, h⟩ := apply_of_bind_eq_ok h
    have htake : w.takeUp site = ({ w with engine := e₁, left := ts }, site₁) := by
      rw [Writer.takeUp, hleft]
      simp only [h₁]
    rw [List.length_cons, Function.iterate_succ_apply]
    show (fun p : Writer × Site Memory => p.1.takeUp p.2)^[ts.length] (w.takeUp site) = _
    rw [htake, ih rfl h]

/-- An append that nothing comes between is stamped and lands. -/
theorem land_stamp (h : w.Sound site.store.rows) (hleft : w.left = []) (recordId : Uuid) {body : Body}
    (hnone : w.flights.get body.table = none) :
    (w.stamp recordId body site).1.land body.table (w.stamp recordId body site).2 =
      ({ w with engine := (w.engine.append recordId body site).2.1 }, (w.engine.append recordId body site).2.2) := by
  have hheld : w.engine.held.get body.table = false := by rw [h.held, hnone]; rfl
  have hstamp : w.engine.stamp site.now recordId body =
      .ok (Engine.follow (w.engine.tails.get body.table) site.now recordId body,
        { w.engine with held := w.engine.held.set body.table true }) := by
    rw [Engine.stamp, Engine.tail, hheld]
    rfl
  have hflights (s : Stamp) : (w.flights.set body.table (some s)).set body.table none = w.flights := by
    refine PerTable.ext_get fun u => ?_
    by_cases hu : u = body.table
    · rw [hu, PerTable.get_set_self, hnone]
    · rw [PerTable.get_set_ne _ _ hu, PerTable.get_set_ne _ _ hu]
  unfold Writer.stamp Writer.land Engine.append
  rw [if_neg (by rw [hleft]; simp), hstamp]
  simp only [PerTable.get_set_self, hflights]

end Writer

namespace Fleet

/-- What holds of engines over one store at any time. -/
structure Sound (f : Fleet) : Prop where
  linked : AllLinked f.site.store.rows
  writers : ∀ w ∈ f.writers, w.Sound f.site.store.rows

theorem sound_start (now : Instant) : (start now).Sound where
  linked t := ⟨.empty t, by
    show Chain.Linked t ((PerTable.ofFn fun _ => []).get t) _
    rw [PerTable.get_ofFn]
    exact .nil⟩
  writers := List.forall_mem_nil _

/-- A writer that keeps its own soundness keeps that of the others. -/
theorem Sound.move {f : Fleet} (h : f.Sound) (writer : Nat) {act : Writer → Site Memory → Writer × Site Memory}
    (hact : ∀ w, w.Sound f.site.store.rows → Writer.Kept f.site (act w f.site)) : (f.move writer act).Sound := by
  unfold Fleet.move
  cases hw : f.writers[writer]? with
  | none => exact h
  | some w =>
    have hkept := hact w (h.writers w (List.mem_of_getElem? hw))
    refine ⟨hkept.linked, fun v hv => ?_⟩
    rcases List.mem_or_eq_of_mem_set hv with hv | rfl
    · exact (h.writers v hv).grown hkept.grown
    · exact hkept.sound

theorem Sound.step {f : Fleet} (h : f.Sound) (e : Event) : (f.step e).Sound := by
  have hnew (lockTimeout : Duration) (left : List Table) :
      ∀ w ∈ f.writers ++ [.waiting lockTimeout left], w.Sound f.site.store.rows := by
    intro w hw
    rcases List.mem_append.1 hw with hw | hw
    · exact h.writers w hw
    · rw [List.mem_singleton.1 hw]
      exact Writer.sound_waiting _ _ _
  cases e with
  | fresh lockTimeout => exact ⟨h.linked, hnew lockTimeout []⟩
  | recover lockTimeout => exact ⟨h.linked, hnew lockTimeout Table.all⟩
  | takeUp writer => exact h.move writer fun w hw => hw.takeUp h.linked
  | stamp writer recordId body fits => exact h.move writer fun w hw => hw.stamp h.linked recordId fits
  | land writer t => exact h.move writer fun w hw => hw.land h.linked t
  | clock now => exact ⟨h.linked, h.writers⟩

theorem Sound.foldl {f : Fleet} (h : f.Sound) (events : List Event) : (events.foldl Fleet.step f).Sound := by
  induction events generalizing f with
  | nil => exact h
  | cons e events ih => exact ih (h.step e)

theorem run_sound (now : Instant) (events : List Event) : (run now events).Sound := (sound_start now).foldl events

/-! ## No fork -/

/-- What a table shows while any engines write to it. -/
structure Unforked (f : Fleet) (t : Table) : Prop where
  /-- The table verifies. -/
  intact : ∃ tail, Chain.verify t (f.rows t) = .intact t tail
  /-- Every row has a position of its own. -/
  position : ∀ i r, (f.rows t)[i]? = some r → r.position.toNat = i + 1
  /-- Every row is hashed onto the row just before it, and onto no other digest without a collision. -/
  onto : ∀ i r, (f.rows t)[i]? = some r →
    let before := Chain.ending (Chain.genesis t) ((f.rows t).take i)
    r.digest = Chain.link before r.content ∧
      ∀ d, r.digest = Chain.link d r.content → d = before ∨
        Chain.Clash [d.bytes ++ r.content] [before.bytes ++ r.content]
  /-- An engine's end is the start of the table, or what the row at its position says. -/
  stands : ∀ w ∈ f.writers, Stands t (f.rows t) (w.engine.tails.get t)
  /-- An append that is under way ends by where the engine's end is. -/
  lands : ∀ w ∈ f.writers, ∀ s, w.flights.get t = some s → w.engine.Settled f.site t s (w.engine.complete s f.site)
  /-- So does a whole append, if none is under way in the engine. -/
  appends : ∀ w ∈ f.writers, w.flights.get t = none → ∀ recordId body, body.Fits → body.table = t →
    ∃ s, w.engine.Stamped t s ∧ w.engine.Settled f.site t s (w.engine.append recordId body f.site)
  /-- Where one is, another waits in vain. -/
  contended : ∀ w ∈ f.writers, w.flights.get t ≠ none → ∀ recordId body, body.table = t →
    w.engine.append recordId body f.site = (.error (.contended t w.engine.lockTimeout), w.engine, f.site)
  /-- An engine can take up the chains at any time, and then stands at the last row. -/
  recovers : ∀ lockTimeout, ∃ e site, (Engine.recover lockTimeout : Act Memory Engine) f.site = (.ok e, site) ∧
    site.store = f.site.store ∧ (e.tails.get t).position = (f.rows t).length ∧ Stands t (f.rows t) (e.tails.get t)

theorem Sound.unforked {f : Fleet} (h : f.Sound) (t : Table) : f.Unforked t where
  intact := by
    obtain ⟨tail, hl⟩ := h.linked t
    exact ⟨tail, hl.verify⟩
  position i r hr := by
    obtain ⟨tail, hl⟩ := h.linked t
    exact (hl.getElem?_eq hr).1
  onto i r hr := by
    obtain ⟨tail, hl⟩ := h.linked t
    have hd := (hl.getElem?_eq hr).2
    exact ⟨hd, fun d hd' => Chain.eq_or_clash_of_link (hd'.symm.trans hd)⟩
  stands w hw := ((h.writers w hw).founded t).stands
  lands w hw s hs := ((h.writers w hw).stamped t s hs).settled ((h.writers w hw).founded t).le
  appends w hw hnone recordId body hfits ht :=
    Engine.settled_append (by rw [(h.writers w hw).held t, hnone]; rfl) ((h.writers w hw).founded t).le recordId hfits ht
  contended w hw hsome recordId body ht := by
    have hheld : w.engine.held.get t = true := by
      rw [(h.writers w hw).held t, Option.isSome_iff_ne_none]
      exact hsome
    rw [Engine.append, Engine.stamp, Engine.tail, ht, hheld]
    rfl
  recovers lockTimeout := by
    choose tails hl using h.linked
    have hget (u : Table) : Chain.Linked u (f.site.store.rows.get u) ((PerTable.ofFn tails).get u) := by
      rw [PerTable.get_ofFn]
      exact hl u
    obtain ⟨site', hrun, hs⟩ := Engine.recover_apply Writer.ends_memory hget lockTimeout
    exact ⟨_, site', hrun, hs.1, (hget t).position_eq, (Reached.of_linked (hget t)).stands⟩

/-- Whatever engines are made over one store that was empty, whenever, and however their appends
interleave, no table forks. -/
theorem no_fork (now : Instant) (events : List Event) (t : Table) : (run now events).Unforked t :=
  (run_sound now events).unforked t

end Fleet

end TradeLedger
