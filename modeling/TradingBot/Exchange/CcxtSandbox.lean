import TradingBot.Exchange.Base
import TradingBot.Exchange.Timestamps

/-!
# The ccxt sandbox exchange

The client of the third-party library is a parameter. Its answers are rows of numbers, and
unified order responses, in which each field may be missing or null.
-/

namespace TradingBot

/-- A field of an OHLCV row. -/
inductive OhlcvField where
  | null
  | int (n : ℤ)
  | float (x : ℚ)
  /-- A float that is infinite, of either sign. -/
  | infinity
  | nan
  deriving DecidableEq, Repr

/-- What `create_order` is asked for. The amount is the quantity as a float. -/
structure CreateOrder where
  symbol : String
  side : String
  amount : ℚ
  clientOrderId : String
  deriving DecidableEq, Repr

/-- The fields of a unified order response that are read. -/
structure OrderResponse where
  id : Option String
  status : Option String
  filled : Option ℚ
  average : Option ℚ
  price : Option ℚ
  /-- The cost of the fee, when the response has a fee. -/
  feeCost : Option ℚ
  deriving DecidableEq, Repr

/-- An exception of the client: its type and its message. -/
structure ClientError where
  typeName : String
  message : String
  deriving DecidableEq, Repr

namespace CcxtSandboxExchange

/-! ## Market data -/

/-- `datetime.fromtimestamp(timestamp_ms / 1000, tz=UTC)`. -/
def openTime : OhlcvField → Except Error Instant
  | .null => .error (.external "TypeError"
      "unsupported operand type(s) for /: 'NoneType' and 'int'")
  | .int n =>
    let seconds := Python.float (n / 1000)
    if |seconds| < 2 ^ 1024 then fromTimestamp seconds
    else .error (.overflowError "integer division result too large for a float")
  | .float x => fromTimestamp (Python.float (x / 1000))
  | .infinity => .error (.overflowError "timestamp out of range for platform time_t")
  | .nan => .error (.valueError "Invalid value NaN (not a number)")

/-- `Decimal(str(field))`: a number, or one of the special values. -/
def decimal : OhlcvField → Except Error (Option ℚ)
  | .null => .error (.external "InvalidOperation" "[<class 'decimal.ConversionSyntax'>]")
  | .int n =>
    if |n| < 10 ^ 4300 then .ok (some n)
    else .error (.valueError "Exceeds the limit (4300 digits) for integer string conversion")
  | .float x => .ok (some (Python.strFloat x))
  | .infinity | .nan => .ok none

/-- `_to_candle`: what follows the first six fields is not looked at. -/
def toCandle (symbol : String) : List OhlcvField → Except Error Candle
  | timestamp :: open_ :: high :: low :: close :: volume :: _ => do
    -- the first field that cannot be converted raises
    let openTime ← openTime timestamp
    let open_ ← decimal open_
    let high ← decimal high
    let low ← decimal low
    let close ← decimal close
    let volume ← decimal volume
    Candle.validateDecimals symbol openTime open_ high low close volume
  | row => .error (.valueError
      ("not enough values to unpack (expected 6, got " ++ toString row.length ++ ")"))

/-- Fetch the candles of a snapshot. Only the call of the client is guarded. -/
def fetchSnapshot
    (fetchOhlcv : String → String → ℕ → Except ClientError (List (List OhlcvField)))
    (symbol timeframe : String) (limit : ℕ) : Except Error MarketSnapshot :=
  match fetchOhlcv symbol timeframe limit with
  | .error _ => .error (.exchangeError ("fetch_ohlcv failed for " ++ symbol ++ " " ++ timeframe))
  | .ok [] =>
    .error (.exchangeError ("the venue returned no candles for " ++ symbol ++ " " ++ timeframe))
  | .ok rows => do
    let candles ← rows.mapM (toCandle symbol)
    MarketSnapshot.validate symbol timeframe candles

/-! ## Orders -/

/-- `a or b` on optional numbers: a missing value and zero are both passed over. -/
def orElse (a b : Option ℚ) : Option ℚ :=
  match a with
  | some x => if x = 0 then b else some x
  | none => b

/-- `str(id) if id else None`. -/
def venueOrderId (response : OrderResponse) : Option String :=
  response.id.filter (· ≠ "")

/-- `{status!r}`, for a status without quotes. -/
def reprStatus : Option String → String
  | none => "None"
  | some s => "'" ++ s ++ "'"

/-- `_to_execution`. -/
def toExecution (clock : Instant) (intent : OrderIntent) (response : OrderResponse) :
    Except Error OrderExecution :=
  -- a response without `filled` counts as one that filled nothing
  let filled := response.filled.getD 0
  match orElse response.average response.price with
  | none =>
    .ok (rejected intent response)
  | some average =>
    if filled ≤ 0 then
      .ok (rejected intent response)
    else do
      let fill ← Fill.validate intent.clientOrderId intent.symbol intent.side filled average
        (response.feeCost.getD 0) clock
      let status := if filled ≥ intent.quantity then .filled else .partiallyFilled
      return { intent, status, venueOrderId := venueOrderId response, fills := [fill]
               rejectionReason := none }
where
  rejected (intent : OrderIntent) (response : OrderResponse) : OrderExecution :=
    { intent, status := .rejected, venueOrderId := venueOrderId response, fills := []
      rejectionReason := some ("venue reported no fill: status=" ++ reprStatus response.status) }

/-- The order an intent asks for. -/
def request (intent : OrderIntent) : CreateOrder :=
  ⟨intent.symbol, intent.side.value, intent.quantity, intent.clientOrderId⟩

/-- Send an order. Whatever the client raises is recorded as a rejection. -/
def submit (createOrder : CreateOrder → Except ClientError OrderResponse) (clock : Instant)
    (intent : OrderIntent) : Except Error OrderExecution :=
  match createOrder (request intent) with
  | .error error =>
    -- a duplicate order id is one of the things that end here
    .ok { intent, status := .rejected, venueOrderId := none, fills := []
          rejectionReason := some (error.typeName ++ ": " ++ error.message) }
  | .ok response => toExecution clock intent response

/-- An execution is of the intent it was read for. -/
theorem toExecution_intent {clock : Instant} {intent : OrderIntent} {response : OrderResponse}
    {e : OrderExecution} (h : toExecution clock intent response = .ok e) : e.intent = intent := by
  unfold toExecution at h
  split at h
  next => cases h; rfl
  next average _ =>
    dsimp only at h
    split at h
    next => cases h; rfl
    next =>
      cases hf : Fill.validate intent.clientOrderId intent.symbol intent.side
          (response.filled.getD 0) average (response.feeCost.getD 0) clock with
      | error err => simp [hf, bind, Except.bind] at h
      | ok f =>
        simp only [hf, bind, Except.bind, pure, Except.pure, Except.ok.injEq] at h
        exact h ▸ rfl

/-- So is one that was refused. -/
theorem submit_intent {createOrder : CreateOrder → Except ClientError OrderResponse}
    {clock : Instant} {intent : OrderIntent} {e : OrderExecution}
    (h : submit createOrder clock intent = .ok e) : e.intent = intent := by
  unfold submit at h
  split at h
  next => cases h; rfl
  next => exact toExecution_intent h

end CcxtSandboxExchange

/-! ## What the gateway makes of an answer -/

/-- The venue executed something of the order. -/
def OrderResponse.Executed (response : OrderResponse) : Prop := 0 < response.filled.getD 0

instance (response : OrderResponse) : Decidable response.Executed :=
  inferInstanceAs (Decidable (_ < _))

/-- The price of an execution, the average one before the limit. -/
def OrderResponse.executedPrice (response : OrderResponse) : Option ℚ :=
  CcxtSandboxExchange.orElse response.average response.price

namespace CcxtSandboxExchange

variable {createOrder : CreateOrder → Except ClientError OrderResponse} {clock : Instant}
  {intent : OrderIntent} {e : OrderExecution}

/-- A fill has the amounts of the answer it was made of. -/
structure Reports (response : OrderResponse) (intent : OrderIntent) (fill : Fill) : Prop where
  clientOrderId : fill.clientOrderId = intent.clientOrderId
  symbol : fill.symbol = intent.symbol
  side : fill.side = intent.side
  quantity : fill.quantity = response.filled.getD 0
  price : response.executedPrice = some fill.price
  feeQuote : fill.feeQuote = response.feeCost.getD 0

/-- An answer that executed something at a price becomes one fill, and everything else a
    rejection. -/
theorem submit_ok (h : submit createOrder clock intent = .ok e) :
    (e.fills = [] ∧ ∀ response, createOrder (request intent) = .ok response →
        response.Executed → response.executedPrice = none) ∨
      ∃ response fill, createOrder (request intent) = .ok response ∧ response.Executed ∧
        e.fills = [fill] ∧ e.status ≠ .rejected ∧ Reports response intent fill := by
  unfold submit at h
  cases hanswer : createOrder (request intent) with
  | error error =>
    simp only [hanswer] at h
    cases h
    exact .inl ⟨rfl, nofun⟩
  | ok response =>
    simp only [hanswer] at h
    -- no price, nothing filled, or a fill
    unfold toExecution at h
    cases hprice : orElse response.average response.price with
    | none =>
      simp only [hprice] at h
      cases h
      refine .inl ⟨rfl, ?_⟩
      rintro _ ⟨⟩ -
      exact hprice
    | some price =>
      simp only [hprice] at h
      split at h
      next hnothing =>
        cases h
        refine .inl ⟨rfl, ?_⟩
        rintro _ ⟨⟩ hexecuted
        exact absurd hexecuted hnothing.not_gt
      next hexecuted =>
        obtain ⟨fill, hfill, h⟩ := Except.bind_eq_ok.mp h
        cases h
        obtain ⟨hid, hsym, hside, hqty, hfillprice, hfee, -⟩ := Fill.validate_ok hfill
        refine .inr ⟨response, fill, rfl, not_le.mp hexecuted, rfl, ?_, hid, hsym, hside, hqty, ?_,
          hfee⟩
        · dsimp only
          split <;> exact nofun
        · rw [hfillprice]
          exact hprice

/-- The execution that an answer with a fill is made into. -/
def filledExecution (intent : OrderIntent) (response : OrderResponse) (fill : Fill) :
    OrderExecution where
  intent := intent
  status := if response.filled.getD 0 ≥ intent.quantity then .filled else .partiallyFilled
  venueOrderId := venueOrderId response
  fills := [fill]
  rejectionReason := none

/-- An execution with a fill is the one its answer was made into, filled at the clock reading. -/
theorem eq_filledExecution {response : OrderResponse} {fill : Fill}
    (hanswer : createOrder (request intent) = .ok response)
    (h : submit createOrder clock intent = .ok e) (hfills : e.fills = [fill]) :
    e = filledExecution intent response fill ∧ fill.filledAt = clock := by
  unfold submit at h
  simp only [hanswer] at h
  unfold toExecution at h
  -- without a price, or with nothing filled, there is no fill
  cases hprice : orElse response.average response.price with
  | none =>
    simp only [hprice] at h
    cases h
    cases hfills
  | some price =>
    simp only [hprice] at h
    split at h
    next =>
      cases h
      cases hfills
    next =>
      obtain ⟨fill', hfill, h⟩ := Except.bind_eq_ok.mp h
      cases h
      cases hfills
      obtain ⟨-, -, -, -, -, -, hat⟩ := Fill.validate_ok hfill
      exact ⟨rfl, hat⟩

/-- An execution at a price is answered when it makes a valid fill. -/
theorem exists_submit_iff {response : OrderResponse} {price : ℚ}
    (hanswer : createOrder (request intent) = .ok response) (hexecuted : response.Executed)
    (hprice : response.executedPrice = some price) :
    (∃ e, submit createOrder clock intent = .ok e) ↔ 0 < price ∧ 0 ≤ response.feeCost.getD 0 := by
  have hsome : orElse response.average response.price = some price := hprice
  have hfilled : ¬response.filled.getD 0 ≤ 0 := not_le.mpr hexecuted
  simp only [submit, hanswer, toExecution, hsome, if_neg hfilled]
  constructor
  · rintro ⟨e, he⟩
    obtain ⟨fill, hfill, -⟩ := Except.bind_eq_ok.mp he
    obtain ⟨-, -, -, -, hfillprice, hfee, -⟩ := Fill.validate_ok hfill
    exact ⟨hfillprice ▸ fill.price_pos, hfee ▸ fill.feeQuote_nonneg⟩
  · rintro ⟨hpos, hfee⟩
    have hchecks : AllHold (Fill.checks (response.filled.getD 0) price
        (response.feeCost.getD 0)) := ⟨hexecuted, hpos, hfee, trivial⟩
    simp only [Fill.validate, validated_of_holds hchecks, bind, Except.bind]
    exact ⟨_, rfl⟩

end CcxtSandboxExchange

end TradingBot
