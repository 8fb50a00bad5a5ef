import TradingBot.Policy.Engine

/-!
# The largest allowed size

What the engine decides, without its steps: it approves the largest order that breaks none
of its bounds, on the side the signal asks for, and it holds when there is none. Said gate by
gate, it approves the truncated size when every gate is open. Looser bounds allow more, so
sizing is monotone.
-/

namespace TradingBot

open FixedPoint

namespace PolicyEngine

/-- An order of size `q` for a signal breaks no bound: the kill switch is clear, the loss
    budget is not used up, and `q` is a positive number of venue steps that is worth the
    minimum notional. A buy stays within the strength's share of the position limit, within
    the limit together with what is held, and within the cash; a sell stays within the
    strength's share of the holding. -/
structure Allows (limits : RiskLimits) (action : SignalAction)
    (strength cash held dayOpening markPrice : ℚ) (killSwitchEngaged : Bool) (q : ℚ) :
    Prop where
  not_refused : ¬Refused limits cash held dayOpening markPrice killSwitchEngaged
  actionable : action ≠ .hold
  buy : action = .buy → q * markPrice ≤ limits.maxPositionQuote * strength ∧
    (held + q) * markPrice ≤ limits.maxPositionQuote ∧ q * markPrice ≤ cash
  sell : action = .sell → q ≤ held * strength
  steps : q ∈ Grid ℚ quantityDigits
  pos : 0 < q
  notional : limits.minOrderNotionalQuote ≤ q * markPrice

variable {limits : RiskLimits} {action : SignalAction}
  {strength cash held dayOpening markPrice : ℚ} {killSwitchEngaged : Bool} {side : OrderSide}
  {q : ℚ}

/-- What is approved is allowed. -/
private theorem allows_of_approved (hmark : 0 < markPrice) (hstrength : 0 ≤ strength)
    (h : approved limits action strength cash held dayOpening markPrice killSwitchEngaged =
      some (side, q)) :
    Allows limits action strength cash held dayOpening markPrice killSwitchEngaged q := by
  obtain ⟨hpos, hsteps, hnotional⟩ := approved_size h
  cases side with
  | buy =>
    obtain ⟨rfl, hclear, ⟨hroom, hcash⟩, rfl, -⟩ := approved_eq_buy_iff.mp h
    obtain ⟨hdesired, hlimit, hafford⟩ := buyQuantity_mul_le hstrength hmark hroom hcash
    refine ⟨hclear, nofun, fun _ => ⟨hdesired, ?_, hafford⟩, nofun, hsteps, hpos, hnotional⟩
    linarith
  | sell =>
    obtain ⟨rfl, hclear, hheld, rfl, -⟩ := approved_eq_sell_iff.mp h
    exact ⟨hclear, nofun, nofun, fun _ => sellQuantity_le hstrength hheld, hsteps, hpos,
      hnotional⟩

/-- Where an order is allowed, one at least as large is approved. -/
private theorem exists_approved_ge (hmark : 0 < markPrice) (hstrength : 0 ≤ strength)
    (h : Allows limits action strength cash held dayOpening markPrice killSwitchEngaged q) :
    ∃ side r, action = sideAction side ∧ q ≤ r ∧
      approved limits action strength cash held dayOpening markPrice killSwitchEngaged =
        some (side, r) := by
  have hlarge : ∀ r, q ≤ r → 0 < r ∧ limits.minOrderNotionalQuote ≤ r * markPrice :=
    fun r hr => ⟨h.pos.trans_le hr,
      h.notional.trans (mul_le_mul_of_nonneg_right hr hmark.le)⟩
  cases haction : action with
  | hold => exact absurd haction h.actionable
  | buy =>
    obtain ⟨hdesired, hlimit, hafford⟩ := h.buy haction
    -- an order that is worth something leaves room below both caps
    have hworth : 0 < q * markPrice := mul_pos h.pos hmark
    have hcash : 0 < cash := hworth.trans_le hafford
    have hroom : 0 < limits.maxPositionQuote - held * markPrice := by linarith
    have hbudget : q ≤ min (min (limits.maxPositionQuote * strength)
        (limits.maxPositionQuote - held * markPrice)) cash / markPrice := by
      rw [le_div_iff₀ hmark]
      exact le_min (le_min hdesired (by linarith)) hafford
    have hle : q ≤ buyQuantity limits strength cash held markPrice :=
      (isGreatest_truncateTo _ (h.pos.le.trans hbudget)).2 ⟨h.steps, hbudget⟩
    exact ⟨.buy, _, rfl, hle, approved_eq_buy_iff.mpr
      ⟨rfl, h.not_refused, ⟨hroom, hcash⟩, rfl, hlarge _ hle⟩⟩
  | sell =>
    have hshare := h.sell haction
    have hheld : 0 < held := pos_of_mul_pos_left (h.pos.trans_le hshare) hstrength
    have hle : q ≤ sellQuantity strength held :=
      (isGreatest_truncateTo _ (h.pos.le.trans hshare)).2 ⟨h.steps, hshare⟩
    exact ⟨.sell, _, rfl, hle, approved_eq_sell_iff.mpr
      ⟨rfl, h.not_refused, hheld, rfl, hlarge _ hle⟩⟩

/-- The engine approves the largest allowed order. -/
theorem approved_eq_some_iff (hmark : 0 < markPrice) (hstrength : 0 ≤ strength) :
    approved limits action strength cash held dayOpening markPrice killSwitchEngaged =
        some (side, q) ↔
      action = sideAction side ∧ IsGreatest
        {r | Allows limits action strength cash held dayOpening markPrice killSwitchEngaged r}
        q := by
  have haction : ∀ {t r}, approved limits action strength cash held dayOpening markPrice
      killSwitchEngaged = some (t, r) → action = sideAction t := by
    rintro (_ | _) r h
    · exact (approved_eq_buy_iff.mp h).1
    · exact (approved_eq_sell_iff.mp h).1
  constructor
  · intro h
    refine ⟨haction h, allows_of_approved hmark hstrength h, fun r hr => ?_⟩
    -- what is approved beside `r` is the same order
    obtain ⟨side', r', -, hle, h'⟩ := exists_approved_ge hmark hstrength hr
    cases h.symm.trans h'
    exact hle
  · rintro ⟨hside, hq, hgreatest⟩
    obtain ⟨side', r, hside', hle, h⟩ := exists_approved_ge hmark hstrength hq
    cases sideAction_injective (hside.symm.trans hside')
    rw [h, hle.antisymm (hgreatest (allows_of_approved hmark hstrength h))]

/-! ## The gates -/

/-- The truncated size of an order on a side. -/
def orderQuantity (limits : RiskLimits) (side : OrderSide) (signal : Signal)
    (account : AccountState) (markPrice : ℚ) : ℚ :=
  match side with
  | .buy => buyQuantity limits signal.strength account.cashQuote account.position.quantity markPrice
  | .sell => sellQuantity signal.strength account.position.quantity

/-- What a side needs of the account: headroom and cash for a buy, a holding for a sell. -/
def SideOpen (limits : RiskLimits) (account : AccountState) (markPrice : ℚ) : OrderSide → Prop
  | .buy => 0 < limits.maxPositionQuote - account.position.notionalAt markPrice ∧
      0 < account.cashQuote
  | .sell => 0 < account.position.quantity

/-- Every gate of the engine lets an order on a side through. -/
structure Opens (e : PolicyEngine) (signal : Signal) (account : AccountState) (markPrice : ℚ)
    (killSwitchEngaged : Bool) (side : OrderSide) : Prop where
  killSwitch : killSwitchEngaged = false
  dailyLoss : -e.limits.maxDailyLossQuote < account.dailyPnlAt markPrice
  action : signal.action = sideAction side
  sideOpen : SideOpen e.limits account markPrice side
  quantity : 0 < orderQuantity e.limits side signal account markPrice
  notional : e.limits.minOrderNotionalQuote ≤
    orderQuantity e.limits side signal account markPrice * markPrice

section Gates

variable {e : PolicyEngine} {signal : Signal} {account : AccountState} {markPrice : ℚ}
  {killSwitchEngaged : Bool} {side : OrderSide} {q : ℚ}

/-- The gates are open exactly where the switch is off and the loss is below its limit. -/
private theorem not_refused_iff : ¬Refused e.limits account.cashQuote account.position.quantity
    account.dayOpeningEquity markPrice killSwitchEngaged ↔
      killSwitchEngaged = false ∧ -e.limits.maxDailyLossQuote < account.dailyPnlAt markPrice := by
  rw [Refused, not_or, Bool.not_eq_true, not_le]
  rfl

/-- An order is approved exactly when every gate is open, and then at the truncated size. -/
theorem approves_eq_some_iff :
    e.approves signal account markPrice killSwitchEngaged = some (side, q) ↔
      e.Opens signal account markPrice killSwitchEngaged side ∧
        q = orderQuantity e.limits side signal account markPrice := by
  unfold approves
  -- the gates are those of the verdict, in another order
  cases side with
  | buy =>
    rw [approved_eq_buy_iff, not_refused_iff]
    constructor
    · rintro ⟨haction, ⟨hswitch, hloss⟩, hside, rfl, hpos, hnotional⟩
      exact ⟨⟨hswitch, hloss, haction, hside, hpos, hnotional⟩, rfl⟩
    · rintro ⟨⟨hswitch, hloss, haction, hside, hpos, hnotional⟩, rfl⟩
      exact ⟨haction, ⟨hswitch, hloss⟩, hside, rfl, hpos, hnotional⟩
  | sell =>
    rw [approved_eq_sell_iff, not_refused_iff]
    constructor
    · rintro ⟨haction, ⟨hswitch, hloss⟩, hside, rfl, hpos, hnotional⟩
      exact ⟨⟨hswitch, hloss, haction, hside, hpos, hnotional⟩, rfl⟩
    · rintro ⟨⟨hswitch, hloss, haction, hside, hpos, hnotional⟩, rfl⟩
      exact ⟨haction, ⟨hswitch, hloss⟩, hside, rfl, hpos, hnotional⟩

/-- A decision holds exactly when a check failed, and that is the only one, at the end. -/
theorem Recorded.hold_iff {d : PolicyDecision} (h : Recorded d) :
    (d.outcome = .hold ↔ ∃ check ∈ d.checks, check.passed = false) ∧
      ∀ check ∈ d.checks, check.passed = false →
        d.failedChecks = [check] ∧ d.checks.getLast? = some check := by
  unfold Recorded at h
  cases houtcome : d.outcome with
  | submit =>
    simp only [houtcome] at h
    have hnone : ∀ check ∈ d.checks, check.passed ≠ false := fun check hmem => by
      simp [h check hmem]
    refine ⟨iff_of_false nofun ?_, fun check hmem hfailed => absurd hfailed (hnone check hmem)⟩
    rintro ⟨check, hmem, hfailed⟩
    exact hnone check hmem hfailed
  | hold =>
    simp only [houtcome] at h
    obtain ⟨passed, failed, hchecks, hfailed, hpassed⟩ := h
    have hmem : failed ∈ d.checks := by simp [hchecks]
    refine ⟨iff_of_true rfl ⟨failed, hmem, hfailed⟩, fun check hcheck hbad => ?_⟩
    -- all but the last one passed
    have hsame : check = failed := by
      rw [hchecks] at hcheck
      rcases List.mem_append.mp hcheck with hcheck | hcheck
      · simp [hpassed check hcheck] at hbad
      · exact List.mem_singleton.mp hcheck
    have hnone : passed.filter (!·.passed) = [] :=
      List.filter_eq_nil_iff.mpr fun check hcheck => by simp [hpassed check hcheck]
    rw [hsame, PolicyDecision.failedChecks, hchecks, List.filter_append, hnone]
    exact ⟨by simp [hfailed], List.getLast?_concat⟩

end Gates

/-! ## More of everything -/

/-- One order is allowed under looser bounds if it is allowed under tighter ones: a higher
    position and loss limit, a lower minimum, a stronger signal, more cash and, for a sell,
    a larger holding. -/
theorem Allows.mono {limits' : RiskLimits} {strength' cash' held' : ℚ} (hmark : 0 < markPrice)
    (hstrength : 0 ≤ strength) (hheld : 0 ≤ held)
    (hmax : limits.maxPositionQuote ≤ limits'.maxPositionQuote)
    (hloss : limits.maxDailyLossQuote ≤ limits'.maxDailyLossQuote)
    (hmin : limits'.minOrderNotionalQuote ≤ limits.minOrderNotionalQuote)
    (hstronger : strength ≤ strength') (hricher : cash ≤ cash') (hmore : held ≤ held')
    (hbuy : action = .buy → held' = held)
    (h : Allows limits action strength cash held dayOpening markPrice killSwitchEngaged q) :
    Allows limits' action strength' cash' held' dayOpening markPrice killSwitchEngaged q where
  not_refused := by
    -- cash and holding raise the equity, so the loss only gets smaller
    have hequity := mul_le_mul_of_nonneg_right hmore hmark.le
    rintro (hswitch | hbreached)
    · exact h.not_refused (.inl hswitch)
    · exact h.not_refused (.inr (by linarith))
  actionable := h.actionable
  buy := by
    intro haction
    obtain ⟨hshare, hlimit, hafford⟩ := h.buy haction
    rw [hbuy haction]
    have hgrown : limits.maxPositionQuote * strength ≤ limits'.maxPositionQuote * strength' :=
      mul_le_mul hmax hstronger hstrength limits'.maxPositionQuote_pos.le
    exact ⟨hshare.trans hgrown, hlimit.trans hmax, hafford.trans hricher⟩
  sell := by
    intro haction
    exact (h.sell haction).trans (mul_le_mul hmore hstronger hstrength (hheld.trans hmore))
  steps := h.steps
  pos := h.pos
  notional := hmin.trans h.notional

/-- The size of an order depends on the position limit only. -/
theorem orderQuantity_congr {limits' : RiskLimits} {side : OrderSide} {signal : Signal}
    {account : AccountState} (hmax : limits'.maxPositionQuote = limits.maxPositionQuote) :
    orderQuantity limits' side signal account markPrice =
      orderQuantity limits side signal account markPrice := by
  cases side with
  | buy => simp only [orderQuantity, buyQuantity, hmax]
  | sell => rfl

/-- Gates that are open stay open when only the loss limit and the minimum are loosened. -/
theorem Opens.mono {e e' : PolicyEngine} {signal : Signal} {account : AccountState}
    {side : OrderSide} (hmax : e'.limits.maxPositionQuote = e.limits.maxPositionQuote)
    (hloss : e.limits.maxDailyLossQuote ≤ e'.limits.maxDailyLossQuote)
    (hmin : e'.limits.minOrderNotionalQuote ≤ e.limits.minOrderNotionalQuote)
    (h : e.Opens signal account markPrice killSwitchEngaged side) :
    e'.Opens signal account markPrice killSwitchEngaged side where
  killSwitch := h.killSwitch
  dailyLoss := by linarith [h.dailyLoss]
  action := h.action
  sideOpen := by
    have hopen := h.sideOpen
    cases side with
    | buy =>
      rw [SideOpen, hmax]
      exact hopen
    | sell => exact hopen
  quantity := (orderQuantity_congr hmax).symm ▸ h.quantity
  notional := (orderQuantity_congr hmax).symm ▸ hmin.trans h.notional

/-- A decision that submits an order of a side and a size. -/
def Submits (e : PolicyEngine) (signal : Signal) (account : AccountState) (markPrice : ℚ)
    (killSwitchEngaged : Bool) (now : Instant) (cycleId : String) (side : OrderSide) (q : ℚ) :
    Prop :=
  ∃ d, e.decide signal account markPrice killSwitchEngaged now cycleId = .ok d ∧
    d.outcome = .submit ∧ ∃ i, d.intent = some i ∧ i.side = side ∧ i.quantity = q

section Submits

variable {e e' : PolicyEngine} {signal signal' : Signal} {account account' : AccountState}
  {markPrice : ℚ} {killSwitchEngaged : Bool} {now : Instant} {cycleId : String}
  {side : OrderSide} {q : ℚ}

/-- What is submitted is what is approved. -/
theorem submits_iff : e.Submits signal account markPrice killSwitchEngaged now cycleId side q ↔
    e.approves signal account markPrice killSwitchEngaged = some (side, q) := by
  obtain ⟨d, hd, hrenders⟩ :=
    e.decide_spec signal account markPrice killSwitchEngaged now cycleId
  constructor
  · rintro ⟨d', hd', -, i, hi, rfl, rfl⟩
    cases hd.symm.trans hd'
    exact (hrenders.intent_eq hi).1
  · intro happroved
    rw [happroved] at hrenders
    obtain ⟨houtcome, i, hi, -, -, hside, hqty, -⟩ := hrenders
    exact ⟨d, hd, houtcome, i, hi, hside, hqty⟩

/-- Where the bounds are looser, an order at least as large is submitted on the same side. -/
private theorem Submits.exists_ge (hmark : 0 < markPrice) (haction : signal'.action = signal.action)
    (hallows : Allows e.limits signal.action signal.strength account.cashQuote
        account.position.quantity account.dayOpeningEquity markPrice killSwitchEngaged q →
      Allows e'.limits signal'.action signal'.strength account'.cashQuote
        account'.position.quantity account'.dayOpeningEquity markPrice killSwitchEngaged q)
    (h : e.Submits signal account markPrice killSwitchEngaged now cycleId side q) :
    ∃ q', q ≤ q' ∧
      e'.Submits signal' account' markPrice killSwitchEngaged now cycleId side q' := by
  have happroved := submits_iff.mp h
  have hallowed := allows_of_approved hmark signal.strength_nonneg happroved
  obtain ⟨side', q', hside', hle, happroved'⟩ :=
    exists_approved_ge hmark signal'.strength_nonneg (hallows hallowed)
  have hside := approves_action happroved
  cases sideAction_injective (hside.symm.trans (haction.symm.trans hside'))
  exact ⟨q', hle, submits_iff.mpr happroved'⟩

/-- Order sizing is monotone. A buy that is submitted stays one, of at least its size, when
    the strength, the cash or the position limit is raised; so does a sell when the strength
    or the holding is; and a higher loss limit or a lower minimum changes no order that is
    submitted. -/
theorem submits_mono (e e' : PolicyEngine) (signal signal' : Signal)
    (account account' : AccountState) (hmark : 0 < markPrice) (killSwitchEngaged : Bool)
    (now : Instant) (cycleId : String) (q : ℚ) :
    (signal'.action = signal.action → signal.strength ≤ signal'.strength →
      account.cashQuote ≤ account'.cashQuote →
      account'.position.quantity = account.position.quantity →
      account'.dayOpeningEquity = account.dayOpeningEquity →
      e.limits.maxPositionQuote ≤ e'.limits.maxPositionQuote →
      e'.limits.maxDailyLossQuote = e.limits.maxDailyLossQuote →
      e'.limits.minOrderNotionalQuote = e.limits.minOrderNotionalQuote →
      e.Submits signal account markPrice killSwitchEngaged now cycleId .buy q →
      ∃ q', q ≤ q' ∧
        e'.Submits signal' account' markPrice killSwitchEngaged now cycleId .buy q') ∧
    (signal'.action = signal.action → signal.strength ≤ signal'.strength →
      account'.cashQuote = account.cashQuote →
      account.position.quantity ≤ account'.position.quantity →
      account'.dayOpeningEquity = account.dayOpeningEquity →
      e.Submits signal account markPrice killSwitchEngaged now cycleId .sell q →
      ∃ q', q ≤ q' ∧
        e.Submits signal' account' markPrice killSwitchEngaged now cycleId .sell q') ∧
    (e'.limits.maxPositionQuote = e.limits.maxPositionQuote →
      e.limits.maxDailyLossQuote ≤ e'.limits.maxDailyLossQuote →
      e'.limits.minOrderNotionalQuote ≤ e.limits.minOrderNotionalQuote →
      ∀ side, e.Submits signal account markPrice killSwitchEngaged now cycleId side q →
        e'.Submits signal account markPrice killSwitchEngaged now cycleId side q) := by
  -- what was allowed still is, so at least as much is approved
  have hstrength := signal.strength_nonneg
  have hheld := account.position.quantity_nonneg
  refine ⟨?_, ?_, ?_⟩
  · intro haction hstronger hricher hsame hday hmax hloss hmin h
    refine h.exists_ge hmark haction fun hallowed => ?_
    rw [haction, hday]
    exact hallowed.mono hmark hstrength hheld hmax hloss.ge hmin.le hstronger hricher hsame.ge
      fun _ => hsame
  · intro haction hstronger hsame hmore hday h
    have hsell : signal.action = .sell := approves_action (submits_iff.mp h)
    refine h.exists_ge hmark haction fun hallowed => ?_
    rw [haction, hday]
    refine hallowed.mono hmark hstrength hheld le_rfl le_rfl le_rfl hstronger hsame.ge hmore ?_
    simp [hsell]
  · intro hmax hloss hmin side h
    obtain ⟨hopen, rfl⟩ := approves_eq_some_iff.mp (submits_iff.mp h)
    have hopen' := hopen.mono hmax hloss hmin
    exact submits_iff.mpr (approves_eq_some_iff.mpr ⟨hopen', (orderQuantity_congr hmax).symm⟩)

end Submits

/-- Half of a position limit of 1000 buys 5 units at 100, so twice the strength buys as much
    at least. -/
theorem submits_mono_stronger :
    let e : PolicyEngine := ⟨⟨1000, 100, 10, by decide, by decide, by decide⟩⟩
    let signal : Signal := ⟨"BTC/USDT", .buy, 1, 0, "fixed", "as scripted", by decide, by decide⟩
    let account : AccountState := ⟨10000, ⟨"BTC/USDT", 0, 0, le_rfl, le_rfl⟩, 10000, by decide⟩
    ∃ q', 5 ≤ q' ∧ e.Submits signal account 100 false 0 "BTCUSDT-15m-0" .buy q' := by
  intro e signal account
  let weaker : Signal := { signal with
    strength := 1 / 2
    strength_nonneg := by decide +kernel
    strength_le_one := by decide +kernel }
  have happroved : e.approves weaker account 100 false = some (.buy, 5) := by decide +kernel
  have hstrength : weaker.strength ≤ signal.strength := (by decide +kernel : (1 / 2 : ℚ) ≤ 1)
  have hmono := submits_mono e e weaker signal account account (by decide : (0 : ℚ) < 100)
    false 0 "BTCUSDT-15m-0" 5
  exact hmono.1 rfl hstrength le_rfl rfl rfl le_rfl rfl rfl
    (submits_iff.mpr happroved)

end PolicyEngine

end TradingBot
