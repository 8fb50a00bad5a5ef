import TradingBot.Errors
import Mathlib.Tactic.NormNum

/-!
# Settings

The configuration of a process. A settings object exists only if every field is in its
range and the validators of the whole configuration passed, so what they check is part of
its type. The name of the environment and the log level are left out.
-/

namespace TradingBot

/-- Supported execution backends. There is deliberately no live member. -/
inductive ExchangeBackend where
  | simulated
  | ccxtSandbox
  deriving DecidableEq, Repr

/-- The fields of the settings with their defaults, as they are read. -/
structure SettingsFields where
  exchangeBackend : ExchangeBackend := .simulated
  exchangeId : String := "binance"
  sandbox : Bool := true
  exchangeApiKey : Option String := none
  exchangeApiSecret : Option String := none
  symbol : String := "BTC/USDT"
  timeframe : String := "15m"
  candleLimit : ℕ := 200
  smaFast : ℕ := 12
  smaSlow : ℕ := 48
  initialCashQuote : ℚ := 10000
  maxPositionQuote : ℚ := 1000
  maxDailyLossQuote : ℚ := 100
  minOrderNotionalQuote : ℚ := 10
  killSwitch : Bool := false
  feeBps : ℚ := 10
  slippageBps : ℚ := 5
  simulatorSeed : ℤ := 1
  simulatorStartPrice : ℚ := 30000
  simulatorVolatilityBps : ℚ := 40
  databaseUrl : Option String := none
  applicationinsightsConnectionString : Option String := none
  deriving DecidableEq, Repr

namespace SettingsFields

/-- The constraints on single fields. -/
def checks (f : SettingsFields) : List FieldCheck :=
  [.atLeast "candle_limit" 2 f.candleLimit, .atMost "candle_limit" 1000 f.candleLimit,
    .atLeast "sma_fast" 2 f.smaFast, .atLeast "sma_slow" 3 f.smaSlow,
    .gtZero "initial_cash_quote" f.initialCashQuote,
    .gtZero "max_position_quote" f.maxPositionQuote,
    .gtZero "max_daily_loss_quote" f.maxDailyLossQuote,
    .gtZero "min_order_notional_quote" f.minOrderNotionalQuote,
    .geZero "fee_bps" f.feeBps, .geZero "slippage_bps" f.slippageBps,
    .gtZero "simulator_start_price" f.simulatorStartPrice,
    .gtZero "simulator_volatility_bps" f.simulatorVolatilityBps]

/-- The backend that needs credentials has them. -/
def HasCredentials (f : SettingsFields) : Prop :=
  f.exchangeBackend = .ccxtSandbox → f.exchangeApiKey.isSome ∧ f.exchangeApiSecret.isSome

instance (f : SettingsFields) : Decidable f.HasCredentials :=
  inferInstanceAs (Decidable (_ → _))

end SettingsFields

structure Settings extends SettingsFields where
  checked : AllHold toSettingsFields.checks
  sandboxed : sandbox = true
  fast_lt_slow : smaFast < smaSlow
  slow_lt_limit : smaSlow < candleLimit
  credentials : toSettingsFields.HasCredentials
  deriving Repr

namespace Settings

/-- `Settings()`: the field constraints, then `enforce_sandbox`, `check_strategy_windows`
    and `check_backend_credentials`. -/
def validate (f : SettingsFields) : Except Error Settings :=
  if hchecked : AllHold f.checks then
    if hsandboxed : f.sandbox = true then
      if hwindows : f.smaFast < f.smaSlow then
        if hlimit : f.smaSlow < f.candleLimit then
          if hcredentials : f.HasCredentials then
            .ok ⟨f, hchecked, hsandboxed, hwindows, hlimit, hcredentials⟩
          else
            .error (.configurationError ("the ccxt_sandbox backend requires " ++
              "BOT_EXCHANGE_API_KEY and BOT_EXCHANGE_API_SECRET, which must be testnet keys " ++
              "without withdrawal permission") none)
        else
          .error (.configurationError "candle_limit must exceed sma_slow to produce a crossover"
            none)
      else .error (.configurationError "sma_fast must be strictly shorter than sma_slow" none)
    else
      .error (.sandboxGuardError
        "sandbox mode is disabled: this build only supports paper trading")
  else .error (.validationError "Settings" (failures f.checks))

/-- Settings that were accepted carry the fields they were read from. -/
theorem validate_ok {f : SettingsFields} {s : Settings} (h : validate f = .ok s) :
    s.toSettingsFields = f := by
  unfold validate at h
  -- one split for each check, in the order of the validators
  split at h
  next =>
    split at h
    next =>
      split at h
      next =>
        split at h
        next =>
          split at h
          next => cases h; rfl
          next => cases h
        next => cases h
      next => cases h
    next => cases h
  next => cases h

/-- The defaults are accepted. -/
theorem exists_validate_default : ∃ s, validate {} = .ok s := by
  have hchecked : AllHold ({} : SettingsFields).checks := by simp [SettingsFields.checks]
  have hcredentials : ({} : SettingsFields).HasCredentials := nofun
  exact ⟨⟨{}, hchecked, rfl, by decide, by decide, hcredentials⟩,
    by simp [validate, hchecked, hcredentials]⟩

/-- `require_database_url`. -/
def requireDatabaseUrl (s : Settings) : Except Error String :=
  match s.databaseUrl with
  | none => .error (.configurationError "BOT_DATABASE_URL is not set" none)
  | some url => .ok url

/-! ## What the settings promise -/

variable (s : Settings)

/-- The fast window of valid settings has two bars. -/
theorem two_le_fast : 2 ≤ s.smaFast :=
  s.checked.of_mem (c := .atLeast "sma_fast" 2 s.smaFast) (by simp [SettingsFields.checks])

/-- The fee of valid settings is not negative. -/
theorem feeBps_nonneg : 0 ≤ s.feeBps :=
  s.checked.of_mem (c := .geZero "fee_bps" s.feeBps) (by simp [SettingsFields.checks])

/-- Neither is the slippage. -/
theorem slippageBps_nonneg : 0 ≤ s.slippageBps :=
  s.checked.of_mem (c := .geZero "slippage_bps" s.slippageBps) (by simp [SettingsFields.checks])

/-- The position limit of valid settings is positive. -/
theorem maxPositionQuote_pos : 0 < s.maxPositionQuote :=
  s.checked.of_mem (c := .gtZero "max_position_quote" s.maxPositionQuote)
    (by simp [SettingsFields.checks])

end Settings

end TradingBot
