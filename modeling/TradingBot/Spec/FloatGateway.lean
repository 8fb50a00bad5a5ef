import TradingBot.Exchange.CcxtFloats
import TradingBot.Spec.MarketDataErrors
import TradingBot.Spec.PolicyLimits
import TradingBot.Spec.Scenario

/-!
# Floats lose nothing

A venue counts in decimals, and the client between it and the bot in floats. The bot
stringifies what it is handed before it becomes a decimal. As long as nothing has more than
15 digits, or is too small or too large for them, a bot in front of the client does what it would
do in front of the venue itself: over a whole run the rows, the results and the orders are the
same.

## Key results

- `openTime_int_eq`: whole milliseconds are told exactly, for decades to come
- `toCandle_ohlcv`: a candle comes back from its row
- `TradingCycle.outcome_congr_gateway`: a run depends on the gateway through two answers only
- `floats_lose_nothing`: a run in floats is a run in decimals
-/

namespace TradingBot

open FixedPoint Python

/-! ## Conversions -/

/-- Whole milliseconds are told exactly until the year 2096. -/
theorem timestampMicros_float_millis {n : ℤ} (h : |n| ≤ 4 * 10 ^ 12) :
    timestampMicros (float (n / 1000)) = n * 1000 := by
  have hsize : |(n : ℚ)| ≤ 4 * 10 ^ 12 := by exact_mod_cast h
  have hseconds := abs_float_sub_le (n / 1000 : ℚ)
  have hsmallest : (2 : ℚ) ^ (-1075 : ℤ) < 1 / 10 ^ 20 := by decide +kernel
  rw [abs_div, abs_of_pos (by norm_num : (0 : ℚ) < 1000)] at hseconds
  set x := float (n / 1000 : ℚ)
  set fraction := (x - truncate x) * 1000000 with hfraction
  have hfloat := abs_float_sub_le fraction
  have hfractionSize : |fraction| ≤ 1000000 := by
    rw [hfraction, abs_mul, abs_of_pos (by norm_num : (0 : ℚ) < 1000000)]
    linarith [abs_sub_truncate_le x]
  -- the fraction is near a whole number of microseconds, and stays near it as a float
  have hmicros : |fraction - (n * 1000 - truncate x * 1000000 : ℤ)| ≤ 4 / 9 := by
    have hdiff : fraction - (n * 1000 - truncate x * 1000000 : ℤ) =
        (x - n / 1000) * 1000000 := by
      rw [hfraction]
      push_cast
      ring
    rw [hdiff, abs_mul, abs_of_pos (by norm_num : (0 : ℚ) < 1000000)]
    linarith
  have hround : roundHalfEven (float fraction) = n * 1000 - truncate x * 1000000 := by
    refine roundHalfEven_eq_of_abs_sub_lt ((abs_sub_le _ fraction _).trans_lt ?_)
    linarith
  rw [timestampMicros, ← hfraction, hround]
  ring

namespace CcxtSandboxExchange

/-- The opening time of a candle before the bound is read exactly. -/
theorem openTime_int_eq {n : ℤ} (h : |n| ≤ 4 * 10 ^ 12) :
    openTime (.int n) = .ok (n * 1000) := by
  have hsize : |(n : ℚ)| ≤ 4 * 10 ^ 12 := by exact_mod_cast h
  have hmicros := timestampMicros_float_millis h
  have hrange : |float (n / 1000 : ℚ)| < 2 ^ 1024 := by
    have hfloat := abs_float_sub_le (n / 1000 : ℚ)
    have hsmallest : (2 : ℚ) ^ (-1075 : ℤ) < 1 := by decide +kernel
    have htriangle := abs_sub_abs_le_abs_sub (float (n / 1000 : ℚ)) (n / 1000)
    have hpow : (2 : ℚ) ^ 64 ≤ 2 ^ 1024 := pow_le_pow_right₀ (by norm_num) (by norm_num)
    rw [abs_div, abs_of_pos (by norm_num : (0 : ℚ) < 1000)] at hfloat htriangle
    refine lt_of_lt_of_le ?_ hpow
    linarith
  simp only [openTime, if_pos hrange]
  refine fromTimestamp_eq_ok.mpr ⟨hmicros.symm, ?_⟩
  have hbounds := abs_le.mp h
  simp only [InDatetimeRange, minDatetime, maxDatetime]
  constructor <;> linarith [hbounds.1, hbounds.2]

end CcxtSandboxExchange

/-- Whole milliseconds, and numbers of at most 15 digits that floats have room for. -/
structure Candle.FewDigits (c : Candle) : Prop where
  millis : ∃ n : ℤ, |n| ≤ 4 * 10 ^ 12 ∧ c.openTime = n * 1000
  open_ : c.open_ ∈ ShortDecimals
  high : c.high ∈ ShortDecimals
  low : c.low ∈ ShortDecimals
  close : c.close ∈ ShortDecimals
  volume : c.volume ∈ ShortDecimals

/-- Numbers of at most 15 digits that floats have room for. -/
structure OrderResponse.FewDigits (r : OrderResponse) : Prop where
  filled : ∀ x, r.filled = some x → x ∈ ShortDecimals
  average : ∀ x, r.average = some x → x ∈ ShortDecimals
  price : ∀ x, r.price = some x → x ∈ ShortDecimals
  feeCost : ∀ x, r.feeCost = some x → x ∈ ShortDecimals

/-- A number that may be missing comes back. -/
private theorem map_strFloat_map_float {a : Option ℚ} (h : ∀ x, a = some x → x ∈ ShortDecimals) :
    (a.map float).map strFloat = a := by
  cases a with
  | none => rfl
  | some x => simp [strFloat_float (h x rfl)]

/-- A response comes back. -/
theorem OrderResponse.FewDigits.mapNumbers {r : OrderResponse} (h : r.FewDigits) :
    (r.mapNumbers float).mapNumbers strFloat = r := by
  simp only [OrderResponse.mapNumbers, map_strFloat_map_float h.filled,
    map_strFloat_map_float h.average, map_strFloat_map_float h.price,
    map_strFloat_map_float h.feeCost]

namespace CcxtSandboxExchange

/-- A candle comes back from its row. -/
theorem toCandle_ohlcv {c : Candle} (h : c.FewDigits) : toCandle c.symbol c.ohlcv = .ok c := by
  obtain ⟨n, hn, htime⟩ := h.millis
  have hmillis : c.openTime / 1000 = n := by
    rw [htime]
    exact Int.mul_ediv_cancel n (by norm_num)
  have hread : openTime (.int (c.openTime / 1000)) = .ok c.openTime := by
    rw [hmillis, htime]
    exact openTime_int_eq hn
  have hdecimal : ∀ x ∈ ShortDecimals, decimal (.float (float x)) = .ok (some x) :=
    fun x hx => by rw [decimal, strFloat_float hx]
  exact toCandle_eq_ok.mpr ⟨⟨_, _, _, _, _, _, [], rfl, hread, hdecimal _ h.open_,
    hdecimal _ h.high, hdecimal _ h.low, hdecimal _ h.close, hdecimal _ h.volume⟩, rfl⟩

end CcxtSandboxExchange

/-! ## The venue behind the client -/

/-- A venue during one cycle, in decimals. -/
structure DecimalVenue where
  candles : String → String → ℕ → Except ClientError (List Candle)
  createOrder : CreateOrder → Except ClientError OrderResponse

/-- What a bot in front of the venue itself would be given. -/
def DecimalVenue.gateway (venue : DecimalVenue) (clock : Instant) : Gateway where
  fetchSnapshot symbol timeframe limit :=
    match venue.candles symbol timeframe limit with
    | .error _ => .error (.exchangeError ("fetch_ohlcv failed for " ++ symbol ++ " " ++ timeframe))
    | .ok [] =>
      .error (.exchangeError ("the venue returned no candles for " ++ symbol ++ " " ++ timeframe))
    | .ok candles => MarketSnapshot.validate symbol timeframe candles
  submit := CcxtSandboxExchange.submit venue.createOrder clock
  submit_intent _ _ := CcxtSandboxExchange.submit_intent

/-- The client reads the numbers of the venue as the nearest floats, and writes the amount of an
    order as the shortest decimal that reads as its float. -/
structure CcxtClient.Carries (client : CcxtClient) (venue : DecimalVenue) : Prop where
  fetch : ∀ symbol timeframe limit, client.fetchOhlcv symbol timeframe limit =
    (venue.candles symbol timeframe limit).map (·.map Candle.ohlcv)
  create : ∀ order, client.createOrder order =
    (venue.createOrder { order with amount := strFloat order.amount }).map (·.mapNumbers float)

section Gateways

variable {client : CcxtClient} {venue : DecimalVenue} (hcarries : client.Carries venue)
  (clock : Instant)

include hcarries

/-- The snapshot is the one of the venue. -/
theorem fetchSnapshot_gateway {symbol timeframe : String} {limit : ℕ}
    (hfew : ∀ candles, venue.candles symbol timeframe limit = .ok candles →
      ∀ c ∈ candles, c.symbol = symbol ∧ c.FewDigits) :
    (client.gateway clock).fetchSnapshot symbol timeframe limit =
      (venue.gateway clock).fetchSnapshot symbol timeframe limit := by
  simp only [CcxtClient.gateway, DecimalVenue.gateway, CcxtSandboxExchange.fetchSnapshot,
    hcarries.fetch]
  cases hcandles : venue.candles symbol timeframe limit with
  | error e => rfl
  | ok candles =>
    cases candles with
    | nil => rfl
    | cons c rest =>
      -- every candle reads back as it was
      have hback : ((c :: rest).map Candle.ohlcv).mapM (CcxtSandboxExchange.toCandle symbol) =
          .ok (c :: rest) := by
        refine Except.mapM_eq_ok.mpr (List.forall₂_map_left_iff.mpr (List.forall₂_same.mpr ?_))
        intro k hk
        obtain ⟨hsymbol, hdigits⟩ := hfew _ hcandles k hk
        exact hsymbol ▸ CcxtSandboxExchange.toCandle_ohlcv hdigits
      simp only [Except.map, List.map_cons] at hback ⊢
      simp only [hback, bind, Except.bind]

/-- The answer to an order is the one of the venue to the order itself. -/
theorem submit_gateway {intent : OrderIntent} (hquantity : intent.quantity ∈ ShortDecimals)
    (hfew : ∀ response, venue.createOrder (CcxtSandboxExchange.request intent) = .ok response →
      response.FewDigits) :
    (client.gateway clock).submit intent = (venue.gateway clock).submit intent := by
  have hanswer : (client.createOrder { CcxtSandboxExchange.request intent with
        amount := float (CcxtSandboxExchange.request intent).amount }).map (·.mapNumbers strFloat) =
      venue.createOrder (CcxtSandboxExchange.request intent) := by
    have hamount : strFloat (float (CcxtSandboxExchange.request intent).amount) =
        (CcxtSandboxExchange.request intent).amount := strFloat_float hquantity
    simp only [hcarries.create, hamount]
    cases hresponse : venue.createOrder (CcxtSandboxExchange.request intent) with
    | error e => rfl
    | ok response =>
      simp only [Except.map, (hfew _ hresponse).mapNumbers]
  simp only [CcxtClient.gateway, DecimalVenue.gateway, CcxtSandboxExchange.submitFloats,
    CcxtSandboxExchange.submit, hanswer]

end Gateways

/-! ## Cycles -/

namespace TradingCycle

/-- A run depends on its gateway through the snapshot it fetches and the answer to the order of
    its decision. -/
theorem outcome_congr_gateway {c : TradingCycle} {db : Database} {gateway : Gateway}
    (hfetch : gateway.fetchSnapshot c.symbol c.timeframe c.candleLimit =
      c.gateway.fetchSnapshot c.symbol c.timeframe c.candleLimit)
    (hsubmit : ∀ p intent, c.Prepares db p → p.decision.intent = some intent →
      gateway.submit intent = c.gateway.submit intent) :
    { c with gateway }.outcome db = c.outcome db := by
  have hprepare : { c with gateway }.prepare db = c.prepare db := by
    simp only [prepare, hfetch]
  -- the gateway is only asked about the intent of the decision
  have hrun : ∀ p, c.prepare db = .ok p →
      { c with gateway }.execute db p = c.execute db p := by
    intro p hp
    cases hintent : p.decision.intent with
    | none => simp only [execute, hintent]
    | some intent =>
      have hanswer := hsubmit p intent (prepare_ok.mp hp) hintent
      simp only [execute, hintent, send, submit, hanswer]
      rfl
  unfold outcome job run
  rw [hprepare]
  cases hp : c.prepare db with
  | error e => rfl
  | ok p =>
    simp only [ExceptT.eval_bind, ExceptT.eval_liftExcept, hrun p hp]
    rfl

end TradingCycle

/-- A cycle, the client it is run on, and the venue behind the client. -/
structure Session where
  cycle : TradingCycle
  client : CcxtClient
  venue : DecimalVenue
  answeredAt : Instant

namespace Session

/-- The cycle as it runs. -/
def inFloats (s : Session) : TradingCycle :=
  { s.cycle with gateway := s.client.gateway s.answeredAt }

/-- The cycle in front of the venue itself. -/
def inDecimals (s : Session) : TradingCycle :=
  { s.cycle with gateway := s.venue.gateway s.answeredAt }

/-- The client carries the venue's numbers, none of which has more than 15 digits. The venue
    fills no more than was ordered, and its prices are such that the largest position is of at
    most ten million units. -/
structure Carried (s : Session) : Prop where
  carries : s.client.Carries s.venue
  quotes : ∀ candles,
    s.venue.candles s.cycle.symbol s.cycle.timeframe s.cycle.candleLimit = .ok candles →
      ∀ c ∈ candles, c.symbol = s.cycle.symbol ∧ c.FewDigits ∧
        s.cycle.policy.limits.maxPositionQuote ≤ 10 ^ 7 * c.close
  answers : ∀ order response, order.amount ∈ ShortDecimals →
    s.venue.createOrder order = .ok response →
      response.FewDigits ∧ response.filled.getD 0 ≤ order.amount

end Session

/-- No position is of more than ten million units. -/
def Database.Small (db : Database) : Prop := ∀ symbol, db.heldQuantity symbol ≤ 10 ^ 7

namespace Session.Carried

variable {s : Session} (h : s.Carried) {db db' : Database} {p : Prepared}

include h

/-- What the bot marks at. -/
theorem maxPosition_le (hp : s.inDecimals.Prepares db p) :
    s.cycle.policy.limits.maxPositionQuote ≤ 10 ^ 7 * p.markPrice := by
  have hfetched := hp.fetched
  simp only [inDecimals, DecimalVenue.gateway] at hfetched
  split at hfetched
  next => cases hfetched
  next => cases hfetched
  next candles _ hcandles =>
    obtain ⟨-, -, rfl⟩ := MarketSnapshot.validate_ok hfetched
    rw [hp.markPrice_eq]
    exact (h.quotes _ hcandles _ p.snapshot.last_mem).2.2

/-- With a buy the position stays within ten million units. -/
theorem add_quantity_le (hp : s.inDecimals.Prepares db p) {intent : OrderIntent}
    (hintent : p.decision.intent = some intent) (hbuy : intent.side = .buy) :
    db.heldQuantity s.cycle.symbol + intent.quantity ≤ 10 ^ 7 := by
  have hposition := (hp.withinLimits hintent).position hbuy
  rw [hp.account_eq.2.2.1] at hposition
  exact le_of_mul_le_mul_right (hposition.trans (h.maxPosition_le hp)) hp.markPrice_pos

/-- An order has at most 15 digits. -/
theorem quantity_mem_short (hsmall : db.Small) (hp : s.inDecimals.Prepares db p)
    {intent : OrderIntent} (hintent : p.decision.intent = some intent) :
    intent.quantity ∈ ShortDecimals := by
  have hlimits := hp.withinLimits hintent
  obtain ⟨k, hk, hsteps⟩ := hlimits.steps
  have hheld := hp.account_eq.2.2.1
  have hle : intent.quantity ≤ 10 ^ 7 := by
    cases hside : intent.side with
    | buy =>
      have hnonneg : 0 ≤ db.heldQuantity s.cycle.symbol :=
        hheld ▸ p.account.position.quantity_nonneg
      linarith [h.add_quantity_le hp hintent hside]
    | sell =>
      obtain ⟨hshare, hall⟩ := hlimits.inventory hside
      rw [hheld] at hshare hall
      exact (hshare.trans hall).trans (hsmall _)
  have hpos := intent.quantity_pos
  have hdigits : intent.quantity ∈ Digits ℚ 10 15 := by
    refine mem_digits_of_grid (n := 8) (by norm_num) (hsteps ▸ intCast_div_mem_grid k 8) ?_
    rw [abs_of_pos hpos]
    linarith
  -- one step is far above the range in which floats run out of digits
  have hstep : 1 / 10 ^ 8 ≤ intent.quantity := by
    have hone : (1 : ℚ) ≤ k := by exact_mod_cast hk
    rw [hsteps]
    exact div_le_div_of_nonneg_right hone (by norm_num)
  have hrange : (10 : ℚ) ^ (-300 : ℤ) ≤ 1 / 10 ^ 8 ∧ (10 : ℚ) ^ 7 ≤ 10 ^ 300 := by
    decide +kernel
  refine ⟨hdigits, .inr ?_⟩
  rw [abs_of_pos hpos]
  exact ⟨hrange.1.trans hstep, hle.trans hrange.2⟩

/-- The bot does in front of the client what it does in front of the venue. -/
theorem outcome_eq (hsmall : db.Small) : s.inFloats.outcome db = s.inDecimals.outcome db := by
  refine TradingCycle.outcome_congr_gateway (c := s.inDecimals) ?_ fun p intent hp hintent => ?_
  · exact fetchSnapshot_gateway h.carries s.answeredAt fun candles hcandles c hc =>
      ⟨(h.quotes candles hcandles c hc).1, (h.quotes candles hcandles c hc).2.1⟩
  · have hquantity := h.quantity_mem_short hsmall hp hintent
    exact submit_gateway h.carries s.answeredAt hquantity fun response hresponse =>
      (h.answers _ response hquantity hresponse).1

/-- A settlement leaves a position within ten million units. -/
private theorem position_le (hsmall : db.Small) (hp : s.inDecimals.Prepares db p)
    {settlement : Settlement} {sent : List OrderIntent}
    (hs : s.inDecimals.Settles db p settlement sent) : settlement.position.quantity ≤ 10 ^ 7 := by
  have hheld : p.account.position.quantity = db.heldQuantity s.cycle.symbol :=
    hp.account_eq.2.2.1
  have hloaded : p.account.position.quantity ≤ 10 ^ 7 := hheld.trans_le (hsmall _)
  cases hs with
  | held => exact hloaded
  | suppressed => exact hloaded
  | @sent _ intent x hintent hnew hsends =>
    have hquantity := (hsends.moves db).quantity
    rcases CcxtSandboxExchange.submit_ok hsends.answered with
      ⟨hnone, -⟩ | ⟨response, fill, hresponse, -, hfills, -, hreports⟩
    · have hfilled : (s.inDecimals.settle db x).filled = [] := hnone
      rw [hfilled, List.map_nil, List.sum_nil, add_zero] at hquantity
      exact hquantity.trans_le hloaded
    · -- the venue filled no more than was ordered
      have hfilled : (s.inDecimals.settle db x).filled = [fill] := hfills
      have hle : fill.quantity ≤ intent.quantity := hreports.quantity ▸
        (h.answers _ _ (h.quantity_mem_short hsmall hp hintent) hresponse).2
      rw [hfilled, List.map_singleton, List.sum_singleton, Fill.signedQuantity, hreports.side]
        at hquantity
      cases hside : intent.side with
      | buy =>
        have hroom := h.add_quantity_le hp hintent hside
        simp only [hside] at hquantity
        linarith
      | sell =>
        simp only [hside] at hquantity
        linarith [fill.quantity_pos]

/-- A commit keeps every position within ten million units. -/
theorem small_of_commits {settlement : Settlement} {sent : List OrderIntent} (hsmall : db.Small)
    (hcommits : s.inDecimals.Commits db db' p settlement sent) : db'.Small := by
  intro symbol
  by_cases hsymbol : symbol = s.cycle.symbol
  · have hle := h.position_le hsmall hcommits.prepared hcommits.settled
    have hround : roundTo 18 ((10 : ℚ) ^ 7) = 10 ^ 7 :=
      roundTo_of_mem (mem_grid.mpr ⟨10 ^ 25, by norm_num⟩)
    rw [hsymbol, ← hround]
    exact hcommits.heldQuantity.trans_le (roundTo_mono 18 hle)
  · rw [Database.heldQuantity, hcommits.positions_of_ne hsymbol]
    exact hsmall symbol

/-- A run in decimals keeps every position within ten million units. -/
theorem small_of_attempted (hsmall : db.Small) (hstep : Attempted db s.inDecimals db') :
    db'.Small := by
  rcases hstep with hcommitted | rfl
  · obtain ⟨q, settlement, sent, hcommits⟩ := hcommitted.commits
    exact h.small_of_commits hsmall hcommits
  · exact hsmall

end Session.Carried

/-! ## Runs -/

section Runs

variable {sessions : List Session} {start db : Database} (hsmall : start.Small)
  (hsessions : ∀ s ∈ sessions, s.Carried)

include hsmall hsessions

/-- A run from a small position stays small. -/
private theorem small_of_runs
    (hrun : Runs Attempted start (sessions.map Session.inDecimals) db) : db.Small := by
  refine hrun.invariant hsmall fun t c u hc ht hstep => ?_
  obtain ⟨s, hs, rfl⟩ := List.mem_map.mp hc
  exact (hsessions s hs).small_of_attempted ht hstep

/-- The runs over floats are those over decimals. -/
private theorem runs_inFloats_iff : Runs Attempted start (sessions.map Session.inFloats) db ↔
    Runs Attempted start (sessions.map Session.inDecimals) db := by
  induction sessions using List.reverseRecOn generalizing db with
  | nil => exact Iff.rfl
  | append_singleton earlier last ih =>
    have hearlier : ∀ s ∈ earlier, s.Carried := fun s hs =>
      hsessions s (List.mem_append_left _ hs)
    have hlast : last.Carried := hsessions last (by simp)
    simp only [List.map_append, List.map_cons, List.map_nil, Runs.snoc_iff, ih hearlier]
    refine exists_congr fun t => and_congr_right fun hrun => ?_
    -- the positions are small enough for the last cycle, as they were for all before it
    have ht := small_of_runs hsmall hearlier hrun
    simp only [Attempted, Committed, hlast.outcome_eq ht]

/-- Floats lose nothing: from positions of at most ten million units, a run of cycles on a client
    that carries a venue's numbers is a run of the same cycles in front of the venue itself; and
    in every state it reaches, the next cycle ends in the same way, with the same rows, the same
    result and the same orders, whose amounts the venue is sent as they are. -/
theorem floats_lose_nothing :
    (Runs Attempted start (sessions.map Session.inFloats) db ↔
      Runs Attempted start (sessions.map Session.inDecimals) db) ∧
    ∀ next : Session, next.Carried → Runs Attempted start (sessions.map Session.inFloats) db →
      next.inFloats.outcome db = next.inDecimals.outcome db ∧
        ∀ intent ∈ (next.inFloats.outcome db).2,
          strFloat (float intent.quantity) = intent.quantity := by
  have hiff : Runs Attempted start (sessions.map Session.inFloats) db ↔ _ :=
    runs_inFloats_iff hsmall hsessions
  refine ⟨hiff, fun next hnext hrun => ?_⟩
  -- positions stay small along the run, so the next order is short too
  have hdb := small_of_runs hsmall hsessions (hiff.mp hrun)
  have houtcome := hnext.outcome_eq hdb
  refine ⟨houtcome, fun intent hsent => ?_⟩
  rw [houtcome] at hsent
  rcases next.inDecimals.outcome_sent db with ⟨-, hnone⟩ | ⟨p, i, hp, hi, -, hone⟩
  · rw [hnone] at hsent
    cases hsent
  · rw [hone, List.mem_singleton] at hsent
    subst hsent
    exact strFloat_float (hnext.quantity_mem_short hdb hp hi)

end Runs

/-! ## A tenth of a coin -/

/-- A venue that quotes 300.3, fills every order there, and takes a fee of a tenth. -/
def tenthsVenue : DecimalVenue where
  candles symbol _ _ := .ok
    [{ symbol
       openTime := noon - 900000000
       open_ := 3003 / 10, high := 3003 / 10, low := 3003 / 10, close := 3003 / 10, volume := 1 / 10
       open_pos := by norm_num, high_pos := by norm_num, low_pos := by norm_num
       close_pos := by norm_num, volume_nonneg := by norm_num
       open_bounds := ⟨le_rfl, le_rfl⟩, close_bounds := ⟨le_rfl, le_rfl⟩ }]
  createOrder order :=
    .ok ⟨some "venue-1", some "closed", some order.amount, some (3003 / 10), none, some (1 / 10)⟩

/-- A client in front of a venue. -/
def DecimalVenue.client (venue : DecimalVenue) : CcxtClient where
  fetchOhlcv symbol timeframe limit :=
    (venue.candles symbol timeframe limit).map (·.map Candle.ohlcv)
  createOrder order :=
    (venue.createOrder { order with amount := strFloat order.amount }).map (·.mapNumbers float)

/-- A cycle at noon on that client, with the default limits. -/
def tenthsSession (action : SignalAction) : Session where
  cycle := buildCycle (tenthsVenue.gateway noon) (fixedStrategy action (1 / 2)) defaultLimits 10000
    noon
  client := tenthsVenue.client
  venue := tenthsVenue
  answeredAt := noon

/-- The numbers of the session fit into floats. -/
private theorem tenthsSession_carried (action : SignalAction) :
    (tenthsSession action).Carried := by
  have hprice : (3003 / 10 : ℚ) ∈ ShortDecimals :=
    ⟨⟨3003, -1, by norm_num [zpow_neg], by norm_num⟩, .inr (by decide +kernel)⟩
  have htenth : (1 / 10 : ℚ) ∈ ShortDecimals :=
    ⟨⟨1, -1, by norm_num [zpow_neg], by norm_num⟩, .inr (by decide +kernel)⟩
  -- the client is the venue over floats by definition, and its numbers are short
  refine ⟨⟨fun _ _ _ => rfl, fun _ => rfl⟩, ?_, ?_⟩
  · rintro _ ⟨⟩ c hc
    obtain rfl := List.mem_singleton.mp hc
    refine ⟨rfl, ⟨⟨1767267900000, by norm_num, by norm_num [noon]⟩, hprice, hprice, hprice, hprice,
      htenth⟩, ?_⟩
    norm_num [tenthsSession, buildCycle, defaultLimits]
  · rintro order _ hamount ⟨⟩
    refine ⟨⟨?_, ?_, nofun, ?_⟩, le_rfl⟩
    · rintro _ ⟨⟩
      exact hamount
    · rintro _ ⟨⟩
      exact hprice
    · rintro _ ⟨⟩
      exact htenth

/-- After a cycle that holds, half of the largest position is bought, and the rows say so to
    the last digit. -/
theorem floats_lose_nothing_tenths : ∃ db r db' sent,
    Runs Attempted Database.empty ([tenthsSession .hold].map Session.inFloats) db ∧
      (tenthsSession .buy).inFloats.outcome db = (.ok (r, db'), sent) ∧
      db'.fills.map (fun row => (row.quantity.toRat, row.price.toRat, row.feeQuote.toRat)) =
        [(166500166 / 10 ^ 8, 3003 / 10, 1 / 10)] := by
  -- what is filled in decimals, by evaluation
  have hrows : ((tenthsSession .hold).inDecimals.outcome Database.empty).1.toOption.any (fun out =>
      ((tenthsSession .buy).inDecimals.outcome out.2).1.toOption.any fun out =>
        out.2.fills.map (fun row => (row.quantity.toRat, row.price.toRat, row.feeQuote.toRat)) =
          [(166500166 / 10 ^ 8, 3003 / 10, 1 / 10)]) = true := by
    decide +kernel
  have hcarried := tenthsSession_carried
  have hsmall : Database.empty.Small := fun _ => by norm_num [Database.heldQuantity, Database.empty]
  have hall : ∀ s ∈ [tenthsSession .hold], s.Carried := by simpa using hcarried .hold
  rcases hhold : (tenthsSession .hold).inDecimals.outcome Database.empty with
    ⟨_ | ⟨held, db⟩, unsent⟩
  · simp [hhold, Except.toOption] at hrows
  · simp only [hhold, Except.toOption, Option.any_some] at hrows
    have hrun : Runs Attempted Database.empty ([tenthsSession .hold].map Session.inDecimals) db :=
      .snoc .nil (.inl ⟨held, unsent, hhold⟩)
    -- the session over floats is the same
    have hfloats := (floats_lose_nothing hsmall hall).1.mpr hrun
    have hnext := (floats_lose_nothing hsmall hall).2 (tenthsSession .buy) (hcarried .buy) hfloats
    rcases hbuy : (tenthsSession .buy).inDecimals.outcome db with ⟨_ | ⟨r, db'⟩, sent⟩
    · simp [hbuy] at hrows
    · simp only [hbuy, Option.any_some, decide_eq_true_eq] at hrows
      exact ⟨db, r, db', sent, hfloats, hnext.1.trans hbuy, hrows⟩

end TradingBot
