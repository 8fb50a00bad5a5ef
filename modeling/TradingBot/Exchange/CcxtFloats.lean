import TradingBot.Exchange.CcxtSandbox
import TradingBot.Python.Repr

/-!
# Floats between the venue and the ledger

Numbers cross the ccxt client as floats, in both directions. The amount of an order is
converted before it is sent, and what the client hands out is stringified before it becomes
a decimal.
-/

namespace TradingBot

open Python

/-- The OHLCV row of a candle: milliseconds and floats. -/
def Candle.ohlcv (c : Candle) : List OhlcvField :=
  [.int (c.openTime / 1000), .float (float c.open_), .float (float c.high), .float (float c.low),
    .float (float c.close), .float (float c.volume)]

/-- A response with each of its numbers replaced. -/
def OrderResponse.mapNumbers (f : ℚ → ℚ) (r : OrderResponse) : OrderResponse :=
  { r with
    filled := r.filled.map f
    average := r.average.map f
    price := r.price.map f
    feeCost := r.feeCost.map f }

/-- A ccxt client during one cycle. The numbers it is given and those it answers with are
    floats. -/
structure CcxtClient where
  fetchOhlcv : String → String → ℕ → Except ClientError (List (List OhlcvField))
  createOrder : CreateOrder → Except ClientError OrderResponse

namespace CcxtSandboxExchange

/-- `submit` with its conversions: `float(intent.quantity)` goes out, and `Decimal(str(x))` is
    taken of each number that comes back. -/
def submitFloats (createOrder : CreateOrder → Except ClientError OrderResponse) (clock : Instant)
    (intent : OrderIntent) : Except Error OrderExecution :=
  submit (fun order =>
    (createOrder { order with amount := float order.amount }).map (·.mapNumbers strFloat))
    clock intent

end CcxtSandboxExchange

/-- The sandbox exchange on a client. -/
def CcxtClient.gateway (client : CcxtClient) (clock : Instant) : Gateway where
  fetchSnapshot := CcxtSandboxExchange.fetchSnapshot client.fetchOhlcv
  submit := CcxtSandboxExchange.submitFloats client.createOrder clock
  submit_intent _ _ := CcxtSandboxExchange.submit_intent

end TradingBot
