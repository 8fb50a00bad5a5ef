import TradingBot.Domain.Market
import TradingBot.Domain.Orders

/-!
# The exchange gateway

Every interaction with a trading venue goes through a gateway. A gateway is taken as
it stands during one cycle: what it answers there may depend on anything.
-/

namespace TradingBot

/-- A venue during one cycle. An execution is the answer to the intent it was asked
    about, which both backends guarantee by construction. -/
structure Gateway where
  fetchSnapshot : String → String → ℕ → Except Error MarketSnapshot
  submit : OrderIntent → Except Error OrderExecution
  submit_intent : ∀ i e, submit i = .ok e → e.intent = i

end TradingBot
