/-
What verification finds of rows that were tampered with behind the back of a ledger. A row that is
not good is blamed, the ledger is locked and an alert raised. What is left are rows that are all
good, and the digests of these tell how far they are what was stored: up to the last of them that a
stored row has, both are the same, but for two strings of octets with one digest.

So whoever leaves any of the rows behind a change, is found. Not found is who takes away the last
rows, adds rows behind them, or makes new rows of everything from the first change on: a chain is
verified without a look at where the engine stands, which is then not where the rows lead.
-/
import TradeLedger.Proofs.Chain.FirstBreak
import TradeLedger.Proofs.Session.Reopening

namespace TradeLedger

/-! ## A ledger that verifies -/

/-- What is raised is logged, and sent to where the sink leads. -/
theorem Running.raise_raises {σ : Type} (w : Running σ) (a : Alert) :
    (∃ more, (w.raise a).site.journal = w.site.journal ++ .alert a :: more) ∧ (w.raise a).ledger = w.ledger ∧
      (w.ledger.sink = .channel → (w.raise a).site.alerts = w.site.alerts ++ [a]) := by
  unfold Running.raise Site.raise
  cases hsink : w.ledger.sink with
  | channel => simp [Site.note]
  | dropped => simp [Site.note]
  | log => simp [Site.note]

section Verifying

variable {σ : Type} [Store σ]

/-- The ledger finds the chain of a table broken: it says so, is locked, and raises the alert. -/
structure Finds (w : Running σ) (t : Table) (b : Chain.Break) : Prop where
  answer : (Work.verifyChain t w).1 = .ok (.broken b)
  locked : (Work.verifyChain t w).2.ledger.locked = true
  logged : ∃ more, (Work.verifyChain t w).2.site.journal =
    w.site.journal ++ .chainBroken b :: .alert (.chainIntegrity t b.position b.expected b.actual) :: more
  sent : w.ledger.sink = .channel → (Work.verifyChain t w).2.site.alerts =
    w.site.alerts ++ [.chainIntegrity t b.position b.expected b.actual]

/-- The ledger finds nothing wrong: it says where the chain ends, is what it was, and raises nothing. -/
structure Passes (w : Running σ) (t : Table) (tail : Chain.Tail) : Prop where
  answer : (Work.verifyChain t w).1 = .ok (.intact t tail)
  ledger : (Work.verifyChain t w).2.ledger = w.ledger
  logged : (Work.verifyChain t w).2.site.journal = w.site.journal ++ [.chainIntact t tail]
  alerts : (Work.verifyChain t w).2.site.alerts = w.site.alerts

variable {w : Running σ} {t : Table} {rows : List Row}

/-- A break is counted and noted, and locks the ledger, before the alert is raised. -/
theorem Work.verifyChain_broken {b : Chain.Break} (hscan : (Store.scan t w.site.store).1 = .ok rows)
    (hv : Chain.verify t rows = .broken b) :
    ∃ w' : Running σ, w'.ledger.locked = true ∧ w'.ledger.sink = w.ledger.sink ∧
      w'.site.journal = w.site.journal ++ [.chainBroken b] ∧ w'.site.alerts = w.site.alerts ∧
      Work.verifyChain t w = (.ok (.broken b), w'.raise (.chainIntegrity t b.position b.expected b.actual)) := by
  let scanned : Running σ := { w with site.store := (Store.scan t w.site.store).2 }
  refine ⟨(scanned.lock t).note (.chainBroken b), rfl, rfl, rfl, rfl, ?_⟩
  rw [Work.verifyChain_apply]
  simp only [hscan, hv]
  rfl

theorem finds_of_broken {b : Chain.Break} (hscan : (Store.scan t w.site.store).1 = .ok rows)
    (hv : Chain.verify t rows = .broken b) : Finds w t b := by
  obtain ⟨w', hlocked, hsink, hjournal, halerts, happly⟩ := Work.verifyChain_broken hscan hv
  obtain ⟨⟨more, hlogged⟩, hledger, hsent⟩ := w'.raise_raises (.chainIntegrity t b.position b.expected b.actual)
  constructor <;> rw [happly]
  · rw [hledger, hlocked]
  · exact ⟨more, by rw [hlogged, hjournal, List.append_assoc]; rfl⟩
  · rw [← hsink, ← halerts]
    exact hsent

theorem passes_of_intact {tail : Chain.Tail} (hscan : (Store.scan t w.site.store).1 = .ok rows)
    (hv : Chain.verify t rows = .intact t tail) : Passes w t tail := by
  have happly : Work.verifyChain t w =
      (.ok (.intact t tail),
        ({ w with site.store := (Store.scan t w.site.store).2 } : Running σ).note (.chainIntact t tail)) := by
    rw [Work.verifyChain_apply]
    simp only [hscan, hv]
  constructor <;> rw [happly] <;> rfl

end Verifying

/-! ## Rows that were tampered with -/

namespace Session

/-- The ledger of the session, over a store that came in place of its own. -/
def facing {σ : Type} (s : Session Flaky) (store : σ) : Running σ := (s.mapStore fun _ => store).running

/-- What can be shown in place of the rows of a table without being found. -/
structure Passing (s : Session Flaky) (t : Table) (rows : List Row) (tail : Chain.Tail) : Prop where
  good : Chain.AllGood t rows
  /-- The end that is reported is that of the rows shown, and not where the engine stands. -/
  digest : tail.digest = Chain.ending (Chain.genesis t) rows ∧ tail.digest ≠ (s.tail t).digest
  /-- A digest that was stored is only shown where it was stored, behind the rows that were. -/
  same_upTo : ∀ (i j : ℕ) (r r' : Row), (s.rows t)[i]? = some r → rows[j]? = some r' → r.digest = r'.digest →
    i = j ∧ (s.rows t).take (i + 1) = rows.take (j + 1)

/-- Whatever rows a store shows of a table in place of those that were stored: the first that is not
good is found; or all of them are good, and they pass, but for two strings of octets with one digest
among those that verifying the rows stored and the rows shown hashes. -/
def FindsTampering (s : Session Flaky) : Prop :=
  ∀ {σ : Type} [Store σ] (store : σ) (t : Table) (rows : List Row),
    (Store.scan t store).1 = .ok rows → rows ≠ s.rows t →
      (∃ front r later b, rows = front ++ r :: later ∧ Chain.FirstBreak t front r b ∧ Finds (s.facing store) t b) ∨
      (∃ tail, Passes (s.facing store) t tail ∧ s.Passing t rows tail) ∨
      Chain.Clash (Chain.hashed t (s.rows t)) (Chain.hashed t rows)

theorem findsTampering_of_chained {s : Session Flaky} (h : Chained s.running.facts s.calls) : s.FindsTampering := by
  intro σ _ store t rows hscan hne
  have hlinked : Chain.Linked t (s.rows t) (s.tail t) := h.linked t
  rcases Chain.Linked.nil.verifyFrom_cases (t := t) rows with ⟨tail, hl, hv⟩ | ⟨front, r, later, b, rfl, hb, hv⟩
  · rw [List.nil_append] at hl
    by_cases hclash : Chain.Clash (Chain.hashed t (s.rows t)) (Chain.hashed t rows)
    · exact .inr (.inr hclash)
    · refine .inr (.inl ⟨tail, passes_of_intact hscan hv, hl.allGood, ⟨hl.digest_eq, fun hd => ?_⟩, ?_⟩)
      · rcases hlinked.eq_or_clash hl hd.symm with ⟨-, heq⟩ | hc
        · exact hne heq.symm
        · exact hclash hc
      · intro i j r r' hr hr' hd
        exact (hlinked.same_upTo_or_clash hl hr hr' hd).resolve_right hclash
  · exact .inl ⟨front, r, later, b, rfl, hb, finds_of_broken hscan (hv later)⟩

/-- A ledger opens over an empty store, and from then on, whatever has happened, it finds what was
tampered with as far as verifying a chain alone can. -/
theorem tampering_found (settings : Settings) (sink : Sink) (faults : List (Option Failure)) (now : Instant) :
    ∃ w : Running Flaky,
      Ledger.opened settings sink { store := ⟨.empty, faults⟩, now, journal := [], alerts := [] } =
        (.ok w.ledger, w.site) ∧
      ∀ events, ((⟨w, []⟩ : Session Flaky).run events).FindsTampering := by
  obtain ⟨w, hopened, hrecorded, -⟩ := recorded_of_opened settings sink faults now
  exact ⟨w, hopened, fun events => findsTampering_of_chained (hrecorded.run events).chained⟩

/-- An empty store, at the start of 1970. -/
def emptySite : Site Flaky where
  store := ⟨.empty, []⟩
  now := 0
  journal := []
  alerts := []

/-- A ledger over it. -/
def opened : Running Flaky := ⟨.fresh {} .channel, (Ledger.opened {} .channel emptySite).2⟩

/-- A ledger that has recorded one signal. -/
def oneSignal : Session Flaky := run ⟨opened, []⟩ [.append alert]

/-- A store in which the only signal has another identifier beside its content. -/
def renamed : Flaky where
  memory := { oneSignal.memory with
    rows := oneSignal.memory.rows.modify .signals (·.map fun r => { r with recordId := Uuid.made 7 7 }) }
  faults := []

/-- That identifier is found, although it is covered by no digest. -/
theorem tampering_found_renamed :
    Ledger.opened {} .channel emptySite = (.ok opened.ledger, opened.site) ∧
      (Store.scan .signals renamed).1 = .ok (renamed.memory.rows.get .signals) ∧
      renamed.memory.rows.get .signals ≠ oneSignal.rows .signals ∧ ∃ b, Finds (oneSignal.facing renamed) .signals b := by
  have hne : renamed.memory.rows.get .signals ≠ oneSignal.rows .signals := by decide +kernel
  obtain ⟨w, hopened, hfinds⟩ := tampering_found {} .channel [] 0
  obtain ⟨hledger, hsite⟩ := Prod.mk.inj (show (_, _) = (Except.ok w.ledger, w.site) from hopened)
  obtain rfl : opened = w := by
    cases w
    cases hledger
    cases hsite
    rfl
  refine ⟨rfl, rfl, hne, ?_⟩
  rcases hfinds [.append alert] renamed .signals _ rfl hne with ⟨_, _, _, b, -, -, hb⟩ | ⟨tail, hpasses, -⟩ | hclash
  · exact ⟨b, hb⟩
  · have hbroken : (Work.verifyChain .signals (oneSignal.facing renamed)).1.toOption.all (·.isIntact) = false := by
      decide +kernel
    rw [show (Work.verifyChain .signals (oneSignal.facing renamed)).1 = _ from hpasses.answer] at hbroken
    cases hbroken
  · exact absurd hclash (by decide +kernel)

/-- The only signal is taken away, and is not missed: nothing is found, nothing locked and nothing
raised, although no two strings of octets that are hashed have one digest. -/
theorem removed_signal_not_found :
    Ledger.opened {} .channel emptySite = (.ok opened.ledger, opened.site) ∧
      (Store.scan .signals (⟨.empty, []⟩ : Flaky)).1 = .ok [] ∧ [] ≠ oneSignal.rows .signals ∧
      (∀ b, ¬ Finds (oneSignal.facing (⟨.empty, []⟩ : Flaky)) .signals b) ∧
      Passes (oneSignal.facing (⟨.empty, []⟩ : Flaky)) .signals (.empty .signals) ∧
      ¬ Chain.Clash (Chain.hashed .signals (oneSignal.rows .signals)) (Chain.hashed .signals []) := by
  have hpasses : Passes (oneSignal.facing (⟨.empty, []⟩ : Flaky)) .signals (.empty .signals) := passes_of_intact rfl rfl
  refine ⟨rfl, rfl, by decide +kernel, fun b hb => ?_, hpasses, by decide +kernel⟩
  have hanswers := hb.answer.symm.trans hpasses.answer
  cases hanswers

end Session

end TradeLedger
