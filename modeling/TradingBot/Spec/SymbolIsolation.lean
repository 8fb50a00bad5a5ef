import TradingBot.Bootstrap
import TradingBot.Exchange.CcxtFloats
import TradingBot.Spec.CrossoverSignal
import TradingBot.Spec.Scenario

/-!
# Symbols do not interfere

A cycle reads the rows of its own symbol and asks whether its own order is known. What it
commits are rows of its symbol and an order under an id that starts with the stripped
symbol, and the ids of two symbols that strip differently are never the same. By the
unwinding rule the cycles of one symbol run as if there were no others.
-/

namespace TradingBot

/-! ## The rows of a symbol -/

/-- The rows of a symbol. -/
structure SymbolRows where
  signals : List SignalRecord
  orders : List OrderRecord
  fills : List FillRecord
  position : Option PositionRecord
  equitySnapshots : List EquitySnapshotRecord
  deriving Repr

def Database.rowsOf (db : Database) (symbol : String) : SymbolRows where
  signals := db.signals.filter (·.symbol = symbol)
  orders := db.orders.filter (·.symbol = symbol)
  fills := db.fills.filter (·.symbol = symbol)
  position := db.positions symbol
  equitySnapshots := db.snapshotsFor symbol

/-- The client order ids of a symbol. -/
def OrderIdOf (symbol id : String) : Prop := ∃ rest, id = stripSymbol symbol ++ "-" ++ rest

/-- No letter or digit becomes a dash in upper case. -/
private theorem toUpper_ne_dash {c : Char} (h : c.isAlphanum = true) : c.toUpper ≠ '-' := by
  intro hdash
  have hval := congrArg Char.val hdash
  unfold Char.toUpper at hval
  split at hval
  next hlower =>
    -- the letters 97 to 122 go to 65 to 90, and the dash is 45
    obtain ⟨ha, hz⟩ := hlower
    simp only [UInt32.le_iff_toNat_le, ← UInt32.toNat_inj, UInt32.toNat_add] at ha hz hval
    have hshift : ('A'.val - 'a'.val).toNat = 2 ^ 32 - 32 := rfl
    have hlow : 'a'.val.toNat = 97 := rfl
    have hhigh : 'z'.val.toNat = 122 := rfl
    have hdashval : '-'.val.toNat = 45 := rfl
    omega
  next =>
    obtain rfl : c = '-' := Char.ext hval
    simp at h

/-- A stripped symbol ends at the first dash of its ids. -/
theorem dash_notMem_stripSymbol (symbol : String) : '-' ∉ (stripSymbol symbol).toList := by
  rw [stripSymbol, String.toList_ofList, List.mem_map]
  rintro ⟨c, hc, hdash⟩
  exact toUpper_ne_dash (List.mem_filter.mp hc).2 hdash

/-- Symbols that share an id strip to the same. -/
theorem OrderIdOf.stripSymbol_eq {a b id : String} (ha : OrderIdOf a id) (hb : OrderIdOf b id) :
    stripSymbol a = stripSymbol b := by
  obtain ⟨r, rfl⟩ := ha
  obtain ⟨t, hid⟩ := hb
  have hbefore (symbol rest : String) :
      (stripSymbol symbol ++ "-" ++ rest).toList.takeWhile (· ≠ '-') =
        (stripSymbol symbol).toList := by
    have hletters : ∀ c ∈ (stripSymbol symbol).toList, decide (c ≠ '-') = true := by
      intro c hc
      exact decide_eq_true fun hdash => dash_notMem_stripSymbol symbol (hdash ▸ hc)
    have hdash : "-".toList = ['-'] := rfl
    rw [String.toList_append, String.toList_append, hdash, List.append_assoc,
      List.takeWhile_append_of_pos hletters]
    simp
  have hstrips := congrArg (fun id : String => id.toList.takeWhile (· ≠ '-')) hid
  exact String.toList_injective ((hbefore a r).symm.trans (hstrips.trans (hbefore b t)))

/-! ## What a cycle of a symbol can see -/

/-- Two tables that a cycle of a symbol cannot tell apart. -/
structure Agree (symbol : String) (db db' : Database) : Prop where
  rows : db.rowsOf symbol = db'.rowsOf symbol
  known : ∀ id, OrderIdOf symbol id → db.alreadyExecuted id = db'.alreadyExecuted id

namespace Agree

variable {symbol : String} {db db' : Database}

/-- A database agrees with itself. -/
theorem refl (symbol : String) (db : Database) : Agree symbol db db := ⟨rfl, fun _ _ => rfl⟩

/-- Databases that agree have the same position of the symbol. -/
theorem positions (h : Agree symbol db db') : db.positions symbol = db'.positions symbol :=
  congrArg SymbolRows.position h.rows

/-- Databases that agree have the same equity snapshots of the symbol. -/
theorem snapshotsFor (h : Agree symbol db db') :
    db.snapshotsFor symbol = db'.snapshotsFor symbol :=
  congrArg SymbolRows.equitySnapshots h.rows

/-- The account is rebuilt from the rows of the symbol. -/
theorem loadAccountState (h : Agree symbol db db') (initial mark : ℚ) (now : Instant) :
    db.loadAccountState symbol initial mark now = db'.loadAccountState symbol initial mark now := by
  have hlatest : db.latestSnapshotFor symbol = db'.latestSnapshotFor symbol := by
    rw [Database.latestSnapshotFor, Database.latestSnapshotFor, h.snapshotsFor]
  simp only [Database.loadAccountState, Database.loadCash, Database.loadPosition,
    Database.dayOpeningEquity, hlatest, h.positions, h.snapshotsFor]

/-- Databases that agree are given the same position row: its version counts on from the one that
    is there. -/
theorem savePosition (h : Agree symbol db db') {position : Position}
    (hsymbol : position.symbol = symbol) (now : Instant) :
    TradingBot.savePosition db position now = TradingBot.savePosition db' position now := by
  subst hsymbol
  rw [TradingBot.savePosition, TradingBot.savePosition, h.positions]

end Agree

/-! ## What a cycle of a symbol commits -/

/-- Everything a transaction writes is of one symbol. -/
structure Transaction.OfSymbol (tx : Transaction) (symbol : String) : Prop where
  signal : tx.signal.symbol = symbol
  order : ∀ row ∈ tx.order.toList, row.symbol = symbol ∧ OrderIdOf symbol row.clientOrderId
  fills : ∀ row ∈ tx.fills, row.symbol = symbol
  position : ∀ w, tx.position = some w → w.symbol = symbol
  equity : tx.equity.symbol = symbol

namespace Transaction.OfSymbol

variable {tx : Transaction} {symbol other : String} {db db' : Database}

/-- After a commit an order is known if it was known before or is the one written. -/
theorem alreadyExecuted_applyTo (tx : Transaction) (db : Database) (id : String) :
    (tx.applyTo db).alreadyExecuted id =
      (db.alreadyExecuted id || tx.order.toList.any (·.clientOrderId = id)) := by
  rw [Database.alreadyExecuted, applyTo_orders, List.any_append, Database.alreadyExecuted]

/-- A transaction of another symbol does not show. -/
theorem agree_applyTo (h : tx.OfSymbol other) (hne : other ≠ symbol)
    (hstrip : stripSymbol other ≠ stripSymbol symbol) : Agree symbol (tx.applyTo db) db := by
  -- no row it adds is of the symbol
  have hsignal : ¬tx.signal.symbol = symbol := h.signal ▸ hne
  have hequity : ¬tx.equity.symbol = symbol := h.equity ▸ hne
  have horder : tx.order.toList.filter (·.symbol = symbol) = [] :=
    List.filter_eq_nil_iff.mpr fun row hrow => by simpa [(h.order row hrow).1] using hne
  have hfills : tx.fills.filter (·.symbol = symbol) = [] :=
    List.filter_eq_nil_iff.mpr fun row hrow => by simpa [h.fills row hrow] using hne
  have hposition : tx.positionsAfter db symbol = db.positions symbol := by
    unfold positionsAfter
    cases hw : tx.position with
    | none => rfl
    | some w => exact Function.update_of_ne (h.position w hw ▸ hne.symm) _ _
  constructor
  · simp [Database.rowsOf, Database.snapshotsFor, hsignal, hequity, horder, hfills, hposition]
  · intro id hid
    -- and no order it adds has an id of the symbol
    rw [alreadyExecuted_applyTo, Bool.or_eq_left_iff_imp, List.any_eq_true]
    rintro ⟨row, hrow, hsame⟩
    rw [decide_eq_true_eq] at hsame
    exact absurd ((h.order row hrow).2.stripSymbol_eq (hsame ▸ hid)) hstrip

/-- The same transaction of a symbol keeps what cannot be told apart indistinguishable. -/
theorem agree_applyTo_applyTo (h : tx.OfSymbol symbol) (hagree : Agree symbol db db') :
    Agree symbol (tx.applyTo db) (tx.applyTo db') := by
  have hposition : tx.positionsAfter db symbol = tx.positionsAfter db' symbol := by
    unfold positionsAfter
    cases hw : tx.position with
    | none => exact hagree.positions
    | some w =>
      obtain rfl := h.position w hw
      simp only [Function.update_self, hagree.positions]
  have hrows := hagree.rows
  simp only [Database.rowsOf, Database.snapshotsFor, SymbolRows.mk.injEq] at hrows
  obtain ⟨hsignals, horders, hfills, -, hequity⟩ := hrows
  constructor
  · simp [Database.rowsOf, Database.snapshotsFor, hsignals, horders, hfills, hequity, hposition]
  · intro id hid
    rw [alreadyExecuted_applyTo, alreadyExecuted_applyTo, hagree.known id hid]

end Transaction.OfSymbol

/-! ## Keeping to a symbol -/

/-- Market data is of the symbol that was asked for. -/
def Gateway.KeepsSymbol (gateway : Gateway) : Prop :=
  ∀ symbol timeframe limit snapshot,
    gateway.fetchSnapshot symbol timeframe limit = .ok snapshot → snapshot.symbol = symbol

/-- The simulator answers with the symbol it is asked about. -/
theorem SimulatedExchange.gateway_keepsSymbol (x : SimulatedExchange)
    (fetchClock submitClock : Instant) : (x.gateway fetchClock submitClock).KeepsSymbol :=
  fun _ _ _ _ h => (SimulatedExchange.fetchSnapshot_ok h).1

/-- So does the sandbox exchange: the symbol is not read from the venue. -/
theorem CcxtClient.gateway_keepsSymbol (client : CcxtClient) (clock : Instant) :
    (client.gateway clock).KeepsSymbol := by
  intro symbol timeframe limit snapshot h
  simp only [gateway, CcxtSandboxExchange.fetchSnapshot] at h
  split at h
  next => cases h
  next => cases h
  next =>
    obtain ⟨candles, -, h⟩ := Except.bind_eq_ok.mp h
    exact (MarketSnapshot.validate_ok h).1

/-- A signal is on the symbol of the snapshot it was taken from. -/
def Strategy.KeepsSymbol (strategy : Strategy) : Prop :=
  ∀ snapshot signal, strategy.evaluate snapshot = .ok signal → signal.symbol = snapshot.symbol

/-- The signal of the strategy is about the symbol of the snapshot. -/
theorem SmaCrossoverStrategy.strategy_keepsSymbol (strategy : SmaCrossoverStrategy) :
    strategy.strategy.KeepsSymbol := fun _ _ h => SmaCrossoverStrategy.evaluate_symbol h

/-- So is the signal of a fixed strategy. -/
theorem fixedStrategy_keepsSymbol (action : SignalAction) (strength : ℚ) :
    (fixedStrategy action strength).KeepsSymbol := by
  intro snapshot signal h
  obtain ⟨_, rfl⟩ := validated_eq_ok_iff.mp h
  rfl

namespace TradingCycle

variable {c : TradingCycle} {db db' : Database} {p : Prepared} {s : Settlement}
  {sent : List OrderIntent}

/-- The market data a cycle acts on, and the opinion about it, are of its symbol. -/
structure KeepsSymbol (c : TradingCycle) : Prop where
  fetched : ∀ snapshot,
    c.gateway.fetchSnapshot c.symbol c.timeframe c.candleLimit = .ok snapshot →
      snapshot.symbol = c.symbol
  evaluated : ∀ snapshot signal, c.strategy.evaluate snapshot = .ok signal →
    signal.symbol = snapshot.symbol

/-- A cycle keeps its symbol if its gateway and its strategy do. -/
theorem keepsSymbol_of (hgateway : c.gateway.KeepsSymbol) (hstrategy : c.strategy.KeepsSymbol) :
    c.KeepsSymbol := ⟨hgateway _ _ _, hstrategy⟩

/-- The cycle of any accepted settings keeps to its symbol, on the simulator and on the sandbox
    exchange, whatever the client of the latter answers. -/
theorem keepsSymbol_of_buildCycle {settings : Settings} {around : Surroundings}
    {telemetry : Telemetry}
    (hclient : ∀ id key secret sandbox gateway,
      around.ccxtSandboxExchange id key secret sandbox = .ok gateway →
        ∃ (client : CcxtClient) (clock : Instant), gateway = client.gateway clock)
    (h : settings.buildCycle around telemetry = .ok c) : c.KeepsSymbol := by
  unfold Settings.buildCycle at h
  obtain ⟨limits, -, h⟩ := Except.bind_eq_ok.mp h
  obtain ⟨gateway, hgateway, h⟩ := Except.bind_eq_ok.mp h
  obtain ⟨strategy, -, h⟩ := Except.bind_eq_ok.mp h
  cases h
  refine keepsSymbol_of ?_ (strategy.strategyIn_exact.symm ▸ strategy.strategy_keepsSymbol)
  -- either backend keeps the symbol
  unfold Settings.buildGateway at hgateway
  split at hgateway
  next =>
    cases hgateway
    exact SimulatedExchange.gateway_keepsSymbol _ _ _
  next =>
    split at hgateway
    next =>
      obtain ⟨client, clock, rfl⟩ := hclient _ _ _ _ _ hgateway
      exact client.gateway_keepsSymbol clock
    next => cases hgateway

/-- The signal is about the symbol of the cycle. -/
theorem Prepares.signal_symbol (hp : c.Prepares db p) (hkeeps : c.KeepsSymbol) :
    p.signal.symbol = c.symbol :=
  (hkeeps.evaluated _ _ hp.evaluated).trans (hkeeps.fetched _ hp.fetched)

/-- An order of a cycle is of its symbol, and so is its id. -/
theorem Prepares.intent_symbol (hp : c.Prepares db p) (hkeeps : c.KeepsSymbol)
    {i : OrderIntent} (hi : p.decision.intent = some i) :
    i.symbol = c.symbol ∧ OrderIdOf c.symbol i.clientOrderId := by
  obtain ⟨-, hid, hsymbol, -⟩ := hp.intent_eq hi
  refine ⟨hsymbol.trans (hp.signal_symbol hkeeps), ?_⟩
  rw [hid, hp.cycleId_eq, buildCycleId, hkeeps.fetched _ hp.fetched]
  refine ⟨p.snapshot.timeframe ++ "-" ++ toString (epochSeconds p.snapshot.asOf) ++ "-" ++
    i.side.value, ?_⟩
  simp only [String.append_assoc]

/-- A cycle that sends nothing leaves its signal and its equity pending. -/
theorem pending_unchanged_ofSymbol (hsignal : p.signal.symbol = c.symbol) (suppressed : Bool) :
    (c.pending p (.unchanged p.account suppressed)).OfSymbol c.symbol where
  signal := hsignal
  order _ hrow := absurd hrow List.not_mem_nil
  fills _ hrow := absurd hrow List.not_mem_nil
  position w hwrite := absurd hwrite (Option.some_ne_none w).symm
  equity := rfl

/-- What a settled cycle leaves pending is of its symbol. -/
theorem Settles.ofSymbol {found : Database} (hs : c.Settles db p s sent)
    (hp : c.Prepares found p) (hkeeps : c.KeepsSymbol) : (c.pending p s).OfSymbol c.symbol := by
  have hsignal := hp.signal_symbol hkeeps
  cases hs with
  | held => exact pending_unchanged_ofSymbol hsignal false
  | suppressed => exact pending_unchanged_ofSymbol hsignal true
  | @sent _ intent x hintent hnew hsends =>
    obtain ⟨hsymbol, hid⟩ := hp.intent_symbol hkeeps hintent
    obtain ⟨fees, hfold⟩ := hsends.folded
    obtain ⟨-, hposition, -, -, hfills⟩ := applyExecution_ok hfold
    have haccount := hp.account_eq.2.1
    -- the order row, the fill rows and the position row
    refine ⟨hsignal, fun row hrow => ?_, fun row hrow => ?_, ?_, rfl⟩
    · obtain rfl : row = x.order := List.mem_singleton.mp hrow
      have hrow : x.order = (recordExecution p.cycleId p.decision x.execution).1 :=
        (congrArg Prod.fst hsends.recorded).symm
      have hanswer := c.gateway.submit_intent _ _ hsends.answered
      refine ⟨?_, hsends.order_eq.1 ▸ hid⟩
      simpa [hrow, recordExecution, hanswer] using hsymbol
    · have hrows : x.fills = x.execution.fills.map recordFill :=
        (congrArg Prod.snd hsends.recorded).symm
      have hrow : row ∈ x.fills := hrow
      rw [hrows] at hrow
      obtain ⟨f, hf, rfl⟩ := List.mem_map.mp hrow
      exact (hfills f hf).trans haccount
    · rintro w ⟨⟩
      rw [Database.savePosition_symbol]
      exact hposition.trans haccount

/-- Preparing reads the rows of the symbol only. -/
theorem Prepares.congr (hp : c.Prepares db p) (hagree : Agree c.symbol db db') :
    c.Prepares db' p := by
  refine ⟨hp.fetched, hp.fresh, hp.cycleId_eq, hp.markPrice_eq, hp.evaluated, hp.stored, ?_,
    hp.decided⟩
  rw [← hagree.loadAccountState]
  exact hp.loaded

/-- Acting on a decision reads the row of the symbol and looks up an id of the symbol. -/
theorem Settles.congr (hs : c.Settles db p s sent) (hp : c.Prepares db p)
    (hkeeps : c.KeepsSymbol) (hagree : Agree c.symbol db db') : c.Settles db' p s sent := by
  cases hs with
  | held hnone => exact .held hnone
  | suppressed hintent hknown =>
    have hid := (hp.intent_symbol hkeeps hintent).2
    exact .suppressed hintent (hagree.known _ hid ▸ hknown)
  | @sent _ intent x hintent hnew hsends =>
    have hid := (hp.intent_symbol hkeeps hintent).2
    have hsymbol : x.position.symbol = c.symbol :=
      (hsends.moves db).symbol.trans hp.account_eq.2.1
    have hsettle : c.settle db x = c.settle db' x := by
      rw [settle, settle, hagree.savePosition hsymbol]
    rw [hsettle]
    exact .sent hintent (hagree.known _ hid ▸ hnew) hsends

/-- A cycle that commits does the same on tables it cannot tell apart. -/
theorem outcome_congr (hkeeps : c.KeepsSymbol) (hagree : Agree c.symbol db db')
    {r : CycleResult} {t : Database} (h : c.outcome db = (.ok (r, t), sent)) :
    ∃ t', c.outcome db' = (.ok (r, t'), sent) ∧ Agree c.symbol t t' := by
  obtain ⟨tx, hrun, hcommit⟩ := outcome_eq_ok.mp h
  obtain ⟨p, s, hp, hs, hconclude⟩ := run_ok.mp hrun
  obtain ⟨rfl, -⟩ := conclude_ok hconclude
  obtain ⟨hstored, -, rfl⟩ := Transaction.commitSession_ok_iff.mp hcommit
  have hs' := hs.congr hp hkeeps hagree
  refine ⟨_, outcome_eq_ok.mpr ⟨c.pending p s, ?_,
    Transaction.commitSession_ok_iff.mpr ⟨hstored, hs'.fits, rfl⟩⟩,
    (hs.ofSymbol hp hkeeps).agree_applyTo_applyTo hagree⟩
  exact run_ok.mpr ⟨p, s, hp.congr hagree, hs', hconclude⟩

/-- A cycle of another symbol does not show. -/
theorem agree_of_outcome (hkeeps : c.KeepsSymbol) {symbol : String} (hne : c.symbol ≠ symbol)
    (hstrip : stripSymbol c.symbol ≠ stripSymbol symbol) {r : CycleResult} {t : Database}
    (h : c.outcome db = (.ok (r, t), sent)) : Agree symbol t db := by
  obtain ⟨p, s, hcommits, -⟩ := outcome_ok h
  rw [hcommits.tables]
  exact (hcommits.settled.ofSymbol hcommits.prepared hkeeps).agree_applyTo hne hstrip

end TradingCycle

/-! ## Histories -/

/-- What a committed cycle of a symbol reported and the intents it submitted. -/
structure Report where
  symbol : String
  result : CycleResult
  submitted : List OrderIntent
  deriving Repr

/-- The committed rows, and the reports of the cycles that committed them. -/
structure History where
  tables : Database
  reports : List Report

/-- One more committed cycle. -/
def History.Extends (h : History) (c : TradingCycle) (h' : History) : Prop :=
  ∃ r sent, c.outcome h.tables = (.ok (r, h'.tables), sent) ∧
    h'.reports = h.reports ++ [⟨c.symbol, r, sent⟩]

/-- Symbols do not interfere: in a sequence of committed cycles in which every other symbol
    strips differently, the cycles of one symbol leave the same rows of the symbol, report
    the same results and submit the same intents as when all other cycles are deleted. -/
theorem symbols_do_not_interfere {start : Database} {cycles : List TradingCycle} {h : History}
    (symbol : String) (hkeeps : ∀ c ∈ cycles, c.KeepsSymbol)
    (hothers : ∀ c ∈ cycles, c.symbol ≠ symbol → stripSymbol c.symbol ≠ stripSymbol symbol)
    (hrun : Runs History.Extends ⟨start, []⟩ cycles h) :
    ∃ alone, Runs History.Extends ⟨start, []⟩ (cycles.filter (·.symbol = symbol)) alone ∧
      h.tables.rowsOf symbol = alone.tables.rowsOf symbol ∧
      h.reports.filter (·.symbol = symbol) = alone.reports := by
  -- what the two runs have in common
  let Same : History → History → Prop := fun h h' =>
    Agree symbol h.tables h'.tables ∧ h.reports.filter (·.symbol = symbol) = h'.reports
  have hstart : Same ⟨start, []⟩ ⟨start, []⟩ := ⟨.refl symbol start, rfl⟩
  -- a cycle of the symbol finds the same rows in both
  have hkeep : ∀ t c u t', c ∈ cycles → decide (c.symbol = symbol) = true → Same t t' →
      History.Extends t c u → ∃ u', History.Extends t' c u' ∧ Same u u' := by
    rintro t c u t' hc hsymbol ⟨hagree, hreports⟩ ⟨r, sent, houtcome, hreported⟩
    obtain rfl := of_decide_eq_true hsymbol
    obtain ⟨tables, houtcome', hagree'⟩ :=
      TradingCycle.outcome_congr (hkeeps c hc) hagree houtcome
    refine ⟨⟨tables, t'.reports ++ [⟨c.symbol, r, sent⟩]⟩, ⟨r, sent, houtcome', rfl⟩, hagree', ?_⟩
    simp [hreported, List.filter_append, hreports]
  -- a cycle of another symbol writes nothing that can be seen
  have hskip : ∀ t c u t', c ∈ cycles → decide (c.symbol = symbol) = false → Same t t' →
      History.Extends t c u → Same u t' := by
    rintro t c u t' hc hsymbol ⟨hagree, hreports⟩ ⟨r, sent, houtcome, hreported⟩
    have hne : c.symbol ≠ symbol := of_decide_eq_false hsymbol
    have hunseen := TradingCycle.agree_of_outcome (hkeeps c hc) hne (hothers c hc hne) houtcome
    refine ⟨⟨hunseen.rows.trans hagree.rows, fun id hid => ?_⟩, ?_⟩
    · exact (hunseen.known id hid).trans (hagree.known id hid)
    · simpa [hreported, List.filter_append, hne] using hreports
  obtain ⟨alone, halone, hagree, hreports⟩ := hrun.filter _ hstart hkeep hskip
  exact ⟨alone, halone, hagree.rows, hreports⟩

/-- A committed sequence has a history. -/
theorem exists_history {start db : Database} {cycles : List TradingCycle}
    (hrun : Runs Committed start cycles db) :
    ∃ h, Runs History.Extends ⟨start, []⟩ cycles h ∧ h.tables = db := by
  induction hrun with
  | nil => exact ⟨_, .nil, rfl⟩
  | @snoc _ _ _ c _ hlast ih =>
    obtain ⟨h, hinit, rfl⟩ := ih
    obtain ⟨r, sent, houtcome⟩ := hlast
    exact ⟨⟨_, h.reports ++ [⟨c.symbol, r, sent⟩]⟩, .snoc hinit ⟨r, sent, houtcome, rfl⟩, rfl⟩

/-- Two markets that are bought at noon, a minute apart. -/
def twoMarkets : List TradingCycle :=
  let bitcoin := simulatedCycle (flatMarket 100 10 5) (fixedStrategy .buy (1 / 2)) defaultLimits
    10000 (noon + 60000000)
  let ether := simulatedCycle (flatMarket 50 10 5) (fixedStrategy .buy 1) defaultLimits 10000 noon
  [{ ether with symbol := "ETH/USDT" }, bitcoin]

/-- Cycles on two markets, and those of the second market alone. -/
theorem symbols_do_not_interfere_twoMarkets : ∃ h alone,
    Runs History.Extends ⟨Database.empty, []⟩ twoMarkets h ∧
      Runs History.Extends ⟨Database.empty, []⟩ twoMarkets.tail alone ∧
      h.tables.rowsOf "BTC/USDT" = alone.tables.rowsOf "BTC/USDT" := by
  obtain ⟨db, hdb⟩ : ∃ db, commitAll Database.empty twoMarkets = some db := by
    have hsome : (commitAll Database.empty twoMarkets).isSome = true := by decide +kernel
    exact Option.isSome_iff_exists.mp hsome
  obtain ⟨h, hrun, -⟩ := exists_history (runs_of_commitAll hdb)
  have hkeeps : ∀ c ∈ twoMarkets, c.KeepsSymbol := by
    simp only [twoMarkets, List.forall_mem_cons]
    have hgateway := fun x : SimulatedExchange => x.gateway_keepsSymbol
    have hstrategy := fixedStrategy_keepsSymbol
    exact ⟨TradingCycle.keepsSymbol_of (hgateway _ _ _) (hstrategy _ _),
      TradingCycle.keepsSymbol_of (hgateway _ _ _) (hstrategy _ _), nofun⟩
  -- the other market has another symbol, also without its slash
  have hothers : ∀ c ∈ twoMarkets, c.symbol ≠ "BTC/USDT" →
      stripSymbol c.symbol ≠ stripSymbol "BTC/USDT" := by
    simp only [twoMarkets, List.forall_mem_cons]
    refine ⟨fun _ => by decide +kernel, fun hne => absurd rfl hne, nofun⟩
  obtain ⟨alone, halone, hrows, -⟩ := symbols_do_not_interfere "BTC/USDT" hkeeps hothers hrun
  exact ⟨h, alone, hrun, halone, hrows⟩

end TradingBot
