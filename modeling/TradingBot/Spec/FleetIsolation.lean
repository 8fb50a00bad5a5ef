import TradingBot.Fleet
import TradingBot.Spec.CrashRetry
import TradingBot.Spec.OverlapSteps
import TradingBot.Spec.SymbolIsolation

/-!
# Overlapping processes of different symbols

The processes of one symbol do the same whether or not the processes of other symbols run
beside them, however the steps of all of them interleave and whoever is killed. They share
the tables and the venue, but a process looks up rows of its symbol and asks after ids of
its symbol only.

## Key results

- `TradingCycle.advance_congr`: a step on tables that its process cannot tell apart
- `Fleet.processes_do_not_interfere`: the unwinding of an interleaving
-/

namespace TradingBot

/-! ## Committing -/

namespace Transaction.OfSymbol

variable {tx : Transaction} {symbol : String} {db db' : Database}

/-- A transaction of a symbol fails on tables that cannot be told apart with the same
    error, or leaves tables that cannot be told apart. -/
theorem commit_congr (h : tx.OfSymbol symbol) (hagree : Agree symbol db db') :
    (∃ e, tx.commit db = .error e ∧ tx.commit db' = .error e) ∨
      (tx.commit db = .ok (tx.applyTo db) ∧ tx.commit db' = .ok (tx.applyTo db')) := by
  -- the constraints only look at what the symbol can see: its ids and its positions row
  have horder : tx.duplicatesOrder db = tx.duplicatesOrder db' := by
    unfold duplicatesOrder
    cases hrow : tx.order with
    | none => rfl
    | some row => exact hagree.known _ (h.order row (by simp [hrow])).2
  have hposition : tx.duplicatesPosition db = tx.duplicatesPosition db' ∧
      tx.missesPosition db = tx.missesPosition db' := by
    unfold duplicatesPosition missesPosition
    cases hw : tx.position with
    | none => exact ⟨rfl, rfl⟩
    | some w =>
      have hsymbol := h.position w hw
      obtain rfl := hsymbol
      cases w with
      | insert row => exact ⟨congrArg Option.isSome hagree.positions, rfl⟩
      | update columns => exact ⟨rfl, congrArg Option.isNone hagree.positions⟩
  unfold commit
  rw [← horder, ← hposition.1, ← hposition.2]
  split
  · exact .inl ⟨_, rfl, rfl⟩
  · split
    · exact .inl ⟨_, rfl, rfl⟩
    · split
      · exact .inl ⟨_, rfl, rfl⟩
      · exact .inr ⟨rfl, rfl⟩

/-- So does its session: whether the columns take the last rows does not depend on the
    tables. -/
theorem commitSession_congr (h : tx.OfSymbol symbol) (hagree : Agree symbol db db') :
    (∃ e, tx.commitSession db = .error e ∧ tx.commitSession db' = .error e) ∨
      (tx.commitSession db = .ok (tx.applyTo db) ∧
        tx.commitSession db' = .ok (tx.applyTo db')) := by
  unfold commitSession
  cases hflush : tx.flush with
  | error e => exact .inl ⟨e, rfl, rfl⟩
  | ok _ => exact h.commit_congr hagree

end Transaction.OfSymbol

/-! ## One step -/

/-- What a run holds in each of its phases is of the symbol of its cycle. -/
def Phase.OfSymbol (c : TradingCycle) : Phase → Prop
  | .prepared p => ∃ found, c.Prepares found p
  | .admitted p i => (∃ found, c.Prepares found p) ∧ p.decision.intent = some i
  | .answered p x => (c.pending p (c.settle Database.empty x)).OfSymbol c.symbol
  | .settled p s => (c.pending p s).OfSymbol c.symbol
  | _ => True

/-- A killed run holds nothing. -/
theorem Phase.OfSymbol.kill {c : TradingCycle} (phase : Phase) : phase.kill.OfSymbol c := by
  cases phase <;> trivial

namespace TradingCycle

variable {c : TradingCycle} {db db' : Database} {phase : Phase} {p : Prepared} {x : Executed}

/-- Tables that agree prepare a cycle alike. -/
theorem prepare_congr (hagree : Agree c.symbol db db') : c.prepare db = c.prepare db' := by
  simp only [prepare, hagree.loadAccountState]

/-- The transaction of an answered order is of its symbol, whatever the positions row. -/
theorem pending_settle_ofSymbol (h : (c.pending p (c.settle db' x)).OfSymbol c.symbol) :
    (c.pending p (c.settle db x)).OfSymbol c.symbol where
  signal := h.signal
  order := h.order
  fills := h.fills
  position := by
    rintro w ⟨⟩
    rw [Database.savePosition_symbol]
    have hposition := h.position _ rfl
    rwa [Database.savePosition_symbol] at hposition
  equity := h.equity

/-- Tables that agree settle an answer alike. -/
theorem settle_congr (hagree : Agree c.symbol db db')
    (h : (c.pending p (c.settle db' x)).OfSymbol c.symbol) : c.settle db x = c.settle db' x := by
  have hsymbol := h.position _ rfl
  rw [Database.savePosition_symbol] at hsymbol
  rw [settle, settle, hagree.savePosition hsymbol]

/-- A step on tables that its process cannot tell apart. -/
theorem advance_congr (h : phase.OfSymbol c) (hkeeps : c.KeepsSymbol)
    (hagree : Agree c.symbol db db') :
    (c.advance (phase, db)).1 = (c.advance (phase, db')).1 ∧
      Agree c.symbol (c.advance (phase, db)).2 (c.advance (phase, db')).2 := by
  -- each phase reads the rows of its symbol, or none
  cases phase with
  | idle =>
    simp only [advance, prepare_congr hagree]
    cases c.prepare db' <;> exact ⟨rfl, hagree⟩
  | prepared p =>
    obtain ⟨found, hp⟩ := h
    cases houtcome : p.decision.outcome with
    | hold =>
      simp only [advance, houtcome]
      exact ⟨trivial, hagree⟩
    | submit =>
      obtain ⟨i, hi⟩ := PolicyDecision.exists_intent houtcome
      have hknown := hagree.known _ (hp.intent_symbol hkeeps hi).2
      simp only [advance, houtcome, hi, hknown]
      split <;> exact ⟨rfl, hagree⟩
  | admitted p i =>
    simp only [advance]
    rcases (c.send p i).eval [] with ⟨_ | _, _⟩ <;> exact ⟨rfl, hagree⟩
  | answered p x =>
    simp only [advance, settle_congr hagree (pending_settle_ofSymbol h)]
    exact ⟨trivial, hagree⟩
  | settled p s =>
    simp only [advance_settled, finish]
    cases hconclude : c.conclude p s with
    | error e => exact ⟨rfl, hagree⟩
    | ok result =>
      obtain ⟨r, tx⟩ := result
      obtain ⟨rfl, -⟩ := conclude_ok hconclude
      rcases h.commitSession_congr hagree with ⟨e, hfails, hfails'⟩ | ⟨hok, hok'⟩
      · simp only [hfails, hfails', bind, Except.bind, ending]
        exact ⟨trivial, hagree⟩
      · simp only [hok, hok', bind, Except.bind, pure, Except.pure, ending]
        exact ⟨trivial, h.agree_applyTo_applyTo hagree⟩
  | committed r => exact ⟨rfl, hagree⟩
  | failed e => exact ⟨rfl, hagree⟩

/-- A step leaves what a run holds of its symbol. -/
theorem Advances.ofSymbol {phase' : Phase} (hstep : c.Advances db phase phase' db')
    (h : phase.OfSymbol c) (hkeeps : c.KeepsSymbol) : phase'.OfSymbol c := by
  cases hstep with
  | prepared hp => exact ⟨db, hp⟩
  | held =>
    obtain ⟨found, hp⟩ := h
    exact pending_unchanged_ofSymbol (hp.signal_symbol hkeeps) false
  | suppressed =>
    obtain ⟨found, hp⟩ := h
    exact pending_unchanged_ofSymbol (hp.signal_symbol hkeeps) true
  | admitted hi => exact ⟨h, hi⟩
  -- the answer is settled on tables that do not matter
  | answered hsends =>
    obtain ⟨⟨found, hp⟩, hi⟩ := h
    have hsettles : c.Settles Database.empty _ _ _ := .sent hi rfl hsends
    exact hsettles.ofSymbol hp hkeeps
  | settled => exact pending_settle_ofSymbol h
  | ended => exact h
  | _ => trivial

/-- A step of another symbol does not show. -/
theorem Advances.agree {phase' : Phase} (hstep : c.Advances db phase phase' db')
    (h : phase.OfSymbol c) {symbol : String} (hne : c.symbol ≠ symbol)
    (hstrip : stripSymbol c.symbol ≠ stripSymbol symbol) : Agree symbol db' db := by
  cases hstep with
  | committed hfinish =>
    obtain ⟨-, rfl⟩ := finish_ok hfinish
    exact Transaction.OfSymbol.agree_applyTo h hne hstrip
  | _ => exact .refl symbol db

end TradingCycle

/-! ## The venue -/

/-- Two books that the processes of a symbol cannot tell apart. -/
structure BooksAgree (symbol : String) (book book' : List VenueOrder) : Prop where
  orders : book.filter (·.request.symbol = symbol) = book'.filter (·.request.symbol = symbol)
  known : ∀ id, OrderIdOf symbol id →
    book.any (·.request.clientOrderId = id) = book'.any (·.request.clientOrderId = id)

namespace BooksAgree

variable {symbol : String} {book book' : List VenueOrder} {v : VenueOrder}

/-- A book agrees with itself. -/
theorem refl (symbol : String) (book : List VenueOrder) : BooksAgree symbol book book :=
  ⟨rfl, fun _ _ => rfl⟩

/-- Books that agree still do after the same order. -/
theorem append (h : BooksAgree symbol book book') (v : VenueOrder) :
    BooksAgree symbol (book ++ [v]) (book' ++ [v]) :=
  ⟨by rw [List.filter_append, List.filter_append, h.orders],
    fun id hid => by rw [List.any_append, List.any_append, h.known id hid]⟩

/-- An order of another symbol does not show. -/
theorem append_other {other : String} (h : BooksAgree symbol book book')
    (hsymbol : v.request.symbol = other) (hid : OrderIdOf other v.request.clientOrderId)
    (hne : other ≠ symbol) (hstrip : stripSymbol other ≠ stripSymbol symbol) :
    BooksAgree symbol (book ++ [v]) book' := by
  constructor
  · simpa [List.filter_append, hsymbol, hne] using h.orders
  · intro id hsame
    have hunknown : v.request.clientOrderId ≠ id := fun heq =>
      hstrip ((heq ▸ hid).stripSymbol_eq hsame)
    simpa [List.any_append, hunknown] using h.known id hsame

end BooksAgree

namespace Attempt

variable {a : Attempt} {book book' : List VenueOrder} {phase : Phase}

/-- An attempt keeps its symbol whatever the book of the venue is. -/
theorem keepsSymbol_cycleAt (h : a.cycle.KeepsSymbol) (book : List VenueOrder) :
    (a.cycleAt book).KeepsSymbol := ⟨h.fetched, h.evaluated⟩

/-- What a run holds does not depend on the book. -/
theorem ofSymbol_cycleAt : phase.OfSymbol (a.cycleAt book) ↔ phase.OfSymbol a.cycle := by
  have hprepares : ∀ db p, (a.cycleAt book).Prepares db p ↔ a.cycle.Prepares db p := fun db p =>
    ⟨fun h => ⟨h.1, h.2, h.3, h.4, h.5, h.6, h.7, h.8⟩,
      fun h => ⟨h.1, h.2, h.3, h.4, h.5, h.6, h.7, h.8⟩⟩
  cases phase <;> simp only [Phase.OfSymbol, hprepares] <;> rfl

/-- The order a run is about to send is of its symbol, and so is its id. -/
theorem request_ofSymbol {p : Prepared} {i : OrderIntent} (hkeeps : a.cycle.KeepsSymbol)
    (h : (Phase.admitted p i).OfSymbol a.cycle) :
    (CcxtSandboxExchange.request i).symbol = a.cycle.symbol ∧
      OrderIdOf a.cycle.symbol (CcxtSandboxExchange.request i).clientOrderId := by
  obtain ⟨⟨found, hp⟩, hi⟩ := h
  exact hp.intent_symbol hkeeps hi

/-- An order of the symbol is known to both books or to neither. -/
theorem knownTo_congr {order : CreateOrder} {symbol : String}
    (hid : OrderIdOf symbol order.clientOrderId) (hbooks : BooksAgree symbol book book') :
    knownTo book order = knownTo book' order := hbooks.known _ hid

/-- The venue answers an order of the symbol the same over both books. -/
theorem createOrder_congr {order : CreateOrder} {symbol : String}
    (hid : OrderIdOf symbol order.clientOrderId) (hbooks : BooksAgree symbol book book') :
    a.createOrder book order = a.createOrder book' order := by
  rw [createOrder, createOrder, knownTo_congr hid hbooks]

/-- The books stay alike when the order reaches the venue. -/
theorem bookAfter_congr {order : CreateOrder} {symbol : String}
    (hid : OrderIdOf symbol order.clientOrderId) (hbooks : BooksAgree symbol book book') :
    BooksAgree symbol (a.bookAfter book order) (a.bookAfter book' order) := by
  unfold bookAfter
  rw [knownTo_congr hid hbooks]
  split
  · exact hbooks
  · split
    · exact hbooks.append _
    · exact hbooks

/-- A run takes the same step in front of both books. -/
theorem advance_cycleAt_congr (h : phase.OfSymbol a.cycle) (hkeeps : a.cycle.KeepsSymbol)
    (hbooks : BooksAgree a.cycle.symbol book book') (db : Database) :
    (a.cycleAt book).advance (phase, db) = (a.cycleAt book').advance (phase, db) := by
  cases phase with
  | admitted p i =>
    have hanswer : (a.gateway book).submit i = (a.gateway book').submit i := by
      have hcreate := createOrder_congr (a := a) (request_ofSymbol hkeeps h).2 hbooks
      show CcxtSandboxExchange.submit (a.createOrder book) a.answeredAt i =
        CcxtSandboxExchange.submit (a.createOrder book') a.answeredAt i
      simp only [CcxtSandboxExchange.submit, hcreate]
    have hsend : (a.cycleAt book).send p i = (a.cycleAt book').send p i := by
      simp only [TradingCycle.send, TradingCycle.submit, cycleAt, hanswer]
    simp only [TradingCycle.advance, hsend]
  | _ => rfl

/-- Books that agree are left alike by a step of the symbol. -/
theorem bookAfterStep_congr (h : phase.OfSymbol a.cycle) (hkeeps : a.cycle.KeepsSymbol)
    (hbooks : BooksAgree a.cycle.symbol book book') :
    BooksAgree a.cycle.symbol (a.bookAfterStep book phase) (a.bookAfterStep book' phase) := by
  cases phase with
  | admitted p i => exact bookAfter_congr (request_ofSymbol hkeeps h).2 hbooks
  | _ => exact hbooks

/-- What the venue executes for another symbol does not show. -/
theorem booksAgree_bookAfterStep (h : phase.OfSymbol a.cycle) (hkeeps : a.cycle.KeepsSymbol)
    {symbol : String} (hne : a.cycle.symbol ≠ symbol)
    (hstrip : stripSymbol a.cycle.symbol ≠ stripSymbol symbol) :
    BooksAgree symbol (a.bookAfterStep book phase) book := by
  cases phase with
  | admitted p i =>
    obtain ⟨hsymbol, hid⟩ := request_ofSymbol hkeeps h
    show BooksAgree symbol (a.bookAfter book _) book
    rcases a.bookAfter_spec book (CcxtSandboxExchange.request i) with ⟨hsame, -⟩ |
      ⟨execution, -, -, hbook⟩
    · rw [hsame]
      exact .refl symbol book
    · rw [hbook]
      exact (BooksAgree.refl symbol book).append_other hsymbol hid hne hstrip
  | _ => exact .refl symbol book

end Attempt

/-! ## Interleavings -/

namespace Fleet

variable {ι : Type} [DecidableEq ι] {attempt : ι → Attempt} {f f' : Fleet ι}

/-- What every process holds is of its symbol. -/
def OfSymbols (attempt : ι → Attempt) (f : Fleet ι) : Prop :=
  ∀ i, (f.phase i).OfSymbol (attempt i).cycle

/-- Two fleets that the processes of a symbol cannot tell apart, and whose processes of the
    symbol are in the same phases. -/
structure Same (attempt : ι → Attempt) (symbol : String) (f f' : Fleet ι) : Prop where
  tables : Agree symbol f.tables f'.tables
  book : BooksAgree symbol f.book f'.book
  phase : ∀ i, (attempt i).cycle.symbol = symbol → f.phase i = f'.phase i

/-- The relation by which one fleet follows another. -/
def Follows (attempt : ι → Attempt) (symbol : String) (f f' : Fleet ι) : Prop :=
  f.OfSymbols attempt ∧ f.Same attempt symbol f'

/-- A turn keeps what every process holds of its symbol. -/
theorem OfSymbols.turn (h : f.OfSymbols attempt) {t : Turn ι}
    (hkeeps : (attempt t.process).cycle.KeepsSymbol) : (f.turn attempt t).OfSymbols attempt := by
  intro j
  cases t with
  | step i =>
    by_cases hj : j = i
    · subst hj
      have hstep := TradingCycle.advances ((attempt j).cycleAt f.book) f.tables (f.phase j)
      have hphase := hstep.ofSymbol (Attempt.ofSymbol_cycleAt.mpr (h j))
        (Attempt.keepsSymbol_cycleAt hkeeps f.book)
      simpa [Fleet.turn] using Attempt.ofSymbol_cycleAt.mp hphase
    · simpa [Fleet.turn, hj] using h j
  | kill i =>
    by_cases hj : j = i
    · subst hj
      simpa [Fleet.turn] using Phase.OfSymbol.kill (f.phase j)
    · simpa [Fleet.turn, hj] using h j

/-- A turn of a process of the symbol can be followed. -/
theorem Same.turn {symbol : String} (h : f.Same attempt symbol f') (hf : f.OfSymbols attempt)
    {t : Turn ι} (hkeeps : (attempt t.process).cycle.KeepsSymbol)
    (hsymbol : (attempt t.process).cycle.symbol = symbol) :
    (f.turn attempt t).Same attempt symbol (f'.turn attempt t) := by
  cases t with
  | step i =>
    obtain rfl : (attempt i).cycle.symbol = symbol := hsymbol
    have hphase := h.phase i rfl
    have hof := hf i
    have hcongr := TradingCycle.advance_congr (Attempt.ofSymbol_cycleAt.mpr hof)
      (Attempt.keepsSymbol_cycleAt hkeeps f.book) h.tables
    rw [Attempt.advance_cycleAt_congr hof hkeeps h.book f'.tables] at hcongr
    -- both fleets take the same step on tables and books that agree
    refine ⟨?_, ?_, fun j hj => ?_⟩
    · simpa [Fleet.turn, ← hphase] using hcongr.2
    · simpa [Fleet.turn, ← hphase] using Attempt.bookAfterStep_congr hof hkeeps h.book
    · by_cases hji : j = i
      · subst hji
        simpa [Fleet.turn, ← hphase] using hcongr.1
      · simpa [Fleet.turn, hji] using h.phase j hj
  | kill i =>
    refine ⟨h.tables, h.book, fun j hj => ?_⟩
    by_cases hji : j = i
    · subst hji
      simp [Fleet.turn, h.phase j hj]
    · simpa [Fleet.turn, hji] using h.phase j hj

/-- A turn of a process of another symbol does not show. -/
theorem Same.turn_other {symbol : String} (h : f.Same attempt symbol f')
    (hf : f.OfSymbols attempt) {t : Turn ι} (hkeeps : (attempt t.process).cycle.KeepsSymbol)
    (hne : (attempt t.process).cycle.symbol ≠ symbol)
    (hstrip : stripSymbol (attempt t.process).cycle.symbol ≠ stripSymbol symbol) :
    (f.turn attempt t).Same attempt symbol f' := by
  -- the turn is that of a process of another symbol, so the others keep their phases
  have hphase : ∀ j, (attempt j).cycle.symbol = symbol →
      (f.turn attempt t).phase j = f'.phase j := by
    intro j hj
    have hother : j ≠ t.process := by
      rintro rfl
      exact hne hj
    rw [← h.phase j hj]
    cases t <;> exact Function.update_of_ne hother _ _
  cases t with
  | step i =>
    have hstep := TradingCycle.advances ((attempt i).cycleAt f.book) f.tables (f.phase i)
    -- what it writes, and what it orders, the symbol cannot see
    have hunseen := hstep.agree (Attempt.ofSymbol_cycleAt.mpr (hf i)) hne hstrip
    have hbook : BooksAgree symbol ((attempt i).bookAfterStep f.book (f.phase i)) f.book :=
      Attempt.booksAgree_bookAfterStep (hf i) hkeeps hne hstrip
    refine ⟨⟨hunseen.rows.trans h.tables.rows, fun id hid => ?_⟩,
      ⟨hbook.orders.trans h.book.orders, fun id hid => ?_⟩, hphase⟩
    · exact (hunseen.known id hid).trans (h.tables.known id hid)
    · exact (hbook.known id hid).trans (h.book.known id hid)
  | kill i => exact ⟨h.tables, h.book, hphase⟩

/-- The turns of the processes of one symbol lead to the same for that symbol when those of the
    others are deleted. -/
theorem exists_alone {db : Database} {book : List VenueOrder} {turns : List (Turn ι)}
    {symbol : String} (hkeeps : ∀ i, (attempt i).cycle.KeepsSymbol)
    (hothers : ∀ i, (attempt i).cycle.symbol ≠ symbol →
      stripSymbol (attempt i).cycle.symbol ≠ stripSymbol symbol)
    (hrun : Runs (Turns attempt) (start db book) turns f) :
    ∃ alone, Runs (Turns attempt) (start db book)
        (turns.filter fun t => (attempt t.process).cycle.symbol = symbol) alone ∧
      f.Same attempt symbol alone := by
  have hstart : (start db book).Follows attempt symbol (start db book) :=
    ⟨fun _ => trivial, .refl symbol db, .refl symbol book, fun _ _ => rfl⟩
  -- turns of the symbol are taken on both sides, the others on one side only
  obtain ⟨alone, halone, -, hsame⟩ := hrun.filter (R := Follows attempt symbol) _ hstart
    (fun g t u g' _ ht hfollows hturn => by
      obtain ⟨hg, hsame⟩ := hfollows
      obtain rfl : u = g.turn attempt t := hturn
      exact ⟨_, rfl, hg.turn (hkeeps _), hsame.turn hg (hkeeps _) (of_decide_eq_true ht)⟩)
    (fun g t u g' _ ht hfollows hturn => by
      obtain ⟨hg, hsame⟩ := hfollows
      obtain rfl : u = g.turn attempt t := hturn
      have hne := of_decide_eq_false ht
      exact ⟨hg.turn (hkeeps _), hsame.turn_other hg (hkeeps _) hne (hothers _ hne)⟩)
  exact ⟨alone, halone, hsame⟩

end Fleet

/-! ## Two markets, one venue -/

/-- A process that buys bitcoin and one that buys ether, in front of one venue. -/
def twoSandboxes (ether : Bool) : Attempt :=
  if ether then { sandboxRun noon none with
    cycle := { (sandboxRun noon none).cycle with symbol := "ETH/USDT" } }
  else sandboxRun (noon + 60000000) none

/-- The ether process is killed once the venue has executed its order. -/
def mixedTurns : List (Turn Bool) :=
  [.step true, .step false, .step true, .step true, .step false, .kill true, .step false,
    .step false, .step false]

end TradingBot
