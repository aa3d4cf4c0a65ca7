import DexServer.Lib.Coll
import DexServer.Lib.Prog
import DexServer.Types.Account
import DexServer.Types.Deposit
import DexServer.Types.Operator
import DexServer.Types.OrderJson

/-!
# The state and the outside world (`daos/session.go`, `rabbitmq/rabbitmq.go`)

`World` is what outlives a handler: the collections of the store and the broker's queues. A
queue is the list of its messages; the handlers run in goroutines of their own, so a message may
be taken from any place.

`Env` is what the code does not decide: which call to the store or the broker fails, the clock,
the order in which the store returns documents, and the answers of the two matching queries
(`OrderDao`, whose implementation is `Mongo.orderDao`). Calls are numbered (`World.calls`), so an
environment fixes the outcome of every call of a run, each one separately.
-/

namespace Dex

open Lib

structure World where
  /-- the `orders` collection, with its unique index on `hash` -/
  orders : Coll Order.hash
  /-- the `trades` collection -/
  trades : List Trade
  /-- the queue `order` -/
  orderQueue : List Message
  /-- the queue `engineResponse` -/
  engineResponses : List EngineResponse
  /-- the queue `trades`: batches for the operator -/
  tradeQueue : List Matches
  /-- the transaction queues, each batch with the number of its queue -/
  txQueue : List (Nat × Matches)
  /-- the queue `TX_MESSAGES` -/
  txMessages : List OperatorMessage
  /-- what was sent on the order websockets -/
  ws : List WsEvent
  /-- the number of outside calls made -/
  calls : Nat
  /-- the `accounts` collection, with its unique index on `address` -/
  accounts : Coll Account.address
  /-- the `associations` collection -/
  associations : Associations
  /-- the last blocks in the `config` collection -/
  config : BlockConfig
  /-- the numbers of addresses in the `config` collection -/
  addressIndices : AddressIndices
  /-- the queue `deposit` -/
  depositQueue : List DepositTransaction
  /-- the transfers of tokens made for deposits -/
  transfers : List TokenTransfer

namespace World

def empty : World :=
  ⟨.empty, [], [], [], [], [], [], [], 0, .empty, .empty, ⟨none, none⟩, ⟨none, none⟩, [], []⟩

/-- One more outside call. -/
def tick (w : World) : World := { w with calls := w.calls + 1 }

/-- The trades of the responses the engine has published and nobody has taken. -/
def emitted (w : World) : List Trade := w.engineResponses.flatMap (·.trades)

theorem emitted_snoc {w w' : World} {r : EngineResponse}
    (h : w'.engineResponses = w.engineResponses ++ [r]) : w'.emitted = w.emitted ++ r.trades := by
  simp [emitted, h]

@[simp] theorem tick_orders (w : World) : w.tick.orders = w.orders := rfl
@[simp] theorem tick_trades (w : World) : w.tick.trades = w.trades := rfl
@[simp] theorem tick_orderQueue (w : World) : w.tick.orderQueue = w.orderQueue := rfl
@[simp] theorem tick_engineResponses (w : World) : w.tick.engineResponses = w.engineResponses := rfl
@[simp] theorem tick_calls (w : World) : w.tick.calls = w.calls + 1 := rfl
@[simp] theorem empty_orders : empty.orders = .empty := rfl
@[simp] theorem empty_emitted : empty.emitted = [] := rfl

end World

/-- The matching queries of `interfaces.OrderDao`: the number of the call, the documents of the
store, the incoming order. They answer with resting orders of one side of its pair, none twice. -/
structure OrderDao where
  getMatchingBuyOrders : Nat → List Order → Order → List Order
  getMatchingSellOrders : Nat → List Order → Order → List Order
  buy_subperm : ∀ n docs o, (getMatchingBuyOrders n docs o).Subperm docs
  buy_resting : ∀ n docs o, ∀ d ∈ getMatchingBuyOrders n docs o,
    d.isOpen ∧ o.SamePair d ∧ d.side = .BUY
  sell_subperm : ∀ n docs o, (getMatchingSellOrders n docs o).Subperm docs
  sell_resting : ∀ n docs o, ∀ d ∈ getMatchingSellOrders n docs o,
    d.isOpen ∧ o.SamePair d ∧ d.side = .SELL

structure Env where
  eth : Eth
  /-- does call `n` fail? -/
  fails : Nat → Bool
  /-- `time.Now()` at call `n` -/
  now : Nat → Time
  /-- the order in which the store returns the orders, trades that answer call `n` -/
  scanOrders : Nat → List Order → List Order
  scanOrders_perm : ∀ n l, (scanOrders n l).Perm l
  scanTrades : Nat → List Trade → List Trade
  scanTrades_perm : ∀ n l, (scanTrades n l).Perm l
  orderDao : OrderDao
  /-- `byte(f)` of a JSON number; what it is for a number out of range depends on the platform -/
  byteOf : Decimal → Byte
  byteOf_byte : ∀ b : Byte, byteOf ⟨b.toNat, 0⟩ = b
  /-- the value of a number whose text is not one -/
  undefinedInt : String → Int
  /-- `big.Int.UnmarshalJSON` of a text that is not a plain decimal number -/
  basedInt : String → Int
  /-- `Time.Format(time.RFC3339Nano)` -/
  formatTime : Time → String
  /-- `time.Parse(time.RFC3339Nano, s)`, its error dropped -/
  parseTime : String → Time
  /-- `fmt.Sprintf("%v", v)` of a value that is not a string -/
  sprint : Json → String

def Env.codec (env : Env) : Codec where
  eth := env.eth
  byteOf := env.byteOf
  byteOf_byte := env.byteOf_byte
  undefinedInt := env.undefinedInt
  basedInt := env.basedInt
  formatTime := env.formatTime
  parseTime := env.parseTime
  sprint := env.sprint

/-- Every call to the store and the broker succeeds. -/
def Env.Faultless (env : Env) : Prop := ∀ n, env.fails n = false

theorem Env.not_faultless {env : Env} {n : Nat} (h : env.fails n = true) : ¬env.Faultless :=
  fun hf => Bool.false_ne_true ((hf n).symm.trans h)

/-- One of the `n` calls from call `c` on fails. -/
def Env.FailsWithin (env : Env) (c n : Nat) : Prop := ∃ i < n, env.fails (c + i) = true

instance (env : Env) (c n : Nat) : Decidable (env.FailsWithin c n) :=
  inferInstanceAs (Decidable (∃ i < n, _))

theorem Env.FailsWithin.not_faultless {env : Env} {c n : Nat} (h : env.FailsWithin c n) :
    ¬env.Faultless := by
  obtain ⟨i, -, hi⟩ := h
  exact Env.not_faultless hi

theorem Env.failsWithin_zero (env : Env) (c : Nat) : ¬env.FailsWithin c 0 := by
  rintro ⟨i, hi, -⟩
  omega

theorem Env.failsWithin_succ {env : Env} {c n : Nat} :
    env.FailsWithin c (n + 1) ↔ env.fails c = true ∨ env.FailsWithin (c + 1) n := by
  constructor
  · rintro ⟨i, hi, hf⟩
    cases i with
    | zero => exact .inl hf
    | succ i =>
      refine .inr ⟨i, by omega, ?_⟩
      rw [Nat.add_assoc, Nat.add_comm 1 i]
      exact hf
  · rintro (hf | ⟨i, hi, hf⟩)
    · exact ⟨0, by omega, hf⟩
    · refine ⟨i + 1, by omega, ?_⟩
      rw [Nat.add_comm i 1, ← Nat.add_assoc]
      exact hf

theorem Env.failsWithin_one {env : Env} {c : Nat} : env.FailsWithin c 1 ↔ env.fails c = true := by
  rw [Env.failsWithin_succ, or_iff_left (env.failsWithin_zero _)]

/-- The handlers. -/
abbrev M := Prog Env World Err

/-- A call to the store or the broker: it fails, or `f` (the number of the call, the state) is
what it does. -/
def call {α : Type} (f : Env → Nat → World → Except Err α × World) : M α := fun env w =>
  if env.fails w.calls then (.error .io, w.tick) else f env w.calls w.tick

/-- A check of the code, its error returned. -/
def checked {α : Type} (x : Except String α) : M α := .ofExcept (x.mapError .msg)

/-- A call whose error is looked at: a panic is none. -/
def attempted {α : Type} (m : M α) : M (Except Err α) := do
  match ← Prog.attempt m with
  | .error (.panic s) => Prog.throw (.panic s)
  | x => pure x

/-- `xs[i]`. -/
def index {α : Type} (xs : List α) (i : Nat) : M α :=
  match xs[i]? with
  | some x => pure x
  | none => .throw (.panic "index out of range")

/-! ## Rules -/

variable {α : Type} {env : Env} {w : World} {Q : α → World → Prop} {E : Err → World → Prop}

theorem call_eq {f : Env → Nat → World → Except Err α × World} (hf : env.Faultless) :
    call f env w = f env w.calls w.tick := by
  simp [call, hf w.calls]

theorem wp_call {f : Env → Nat → World → Except Err α × World}
    (hE : env.fails w.calls = true → E .io w.tick)
    (h : env.fails w.calls = false → Prog.Ends Q E (f env w.calls w.tick)) :
    Prog.wp (call f) env w Q E := by
  unfold Prog.wp call
  cases hc : env.fails w.calls with
  | true => exact hE hc
  | false =>
    rw [if_neg Bool.false_ne_true]
    exact h hc

theorem wp_checked {x : Except String α} (h : ∀ a, x = .ok a → Q a w) (hE : ∀ e, E (.msg e) w) :
    Prog.wp (checked x) env w Q E := by
  cases x with
  | ok a => exact h a rfl
  | error e => exact hE e

/-- A panic goes on; any other error is a value of the attempt. -/
theorem wp_attempted_cases {m : M α} {Q : Except Err α → World → Prop}
    (h : Prog.wp m env w (fun a => Q (.ok a)) fun e w' =>
      (∀ s, e = .panic s → E e w') ∧ ((∀ s, e ≠ .panic s) → Q (.error e) w')) :
    Prog.wp (attempted m) env w Q E := by
  unfold attempted
  rw [Prog.wp_bind, Prog.wp_attempt]
  refine Prog.wp_mono h (fun a w' ha => ha) fun e w' he => ?_
  cases e with
  | panic s => exact he.1 s rfl
  | _ => exact he.2 (by simp)

theorem wp_attempted {m : M α} {Q : Except Err α → World → Prop}
    (h : Prog.wp m env w (fun a => Q (.ok a)) fun e w' => Q (.error e) w' ∧ E e w') :
    Prog.wp (attempted m) env w Q E :=
  wp_attempted_cases <| Prog.wp_mono h (fun _ _ ha => ha)
    fun _ _ he => ⟨fun _ _ => he.2, fun _ => he.1⟩

theorem attempted_pure (a : α) : attempted (pure a : M α) = pure (.ok a) := rfl

theorem attempted_ok {m : M α} {a : α} {w' : World} (h : m env w = (.ok a, w')) :
    attempted m env w = (.ok (.ok a), w') := by
  unfold attempted
  rw [Prog.bind_ok (Prog.attempt_eq h)]
  rfl

theorem attempted_error {m : M α} {e : Err} {w' : World} (h : m env w = (.error e, w')) :
    attempted m env w = (.ok (.error e), w') ∨ attempted m env w = (.error e, w') := by
  unfold attempted
  rw [Prog.bind_ok (Prog.attempt_eq h)]
  cases e with
  | panic s => exact .inr rfl
  | _ => exact .inl rfl

theorem attempted_bind {β : Type} (m : M α) (f : α → M β) :
    attempted (m >>= f) = attempted m >>= fun
      | .ok a => attempted (f a)
      | .error e => pure (.error e) := by
  funext env w
  simp only [attempted, bind, Prog.attempt]
  generalize m env w = x
  obtain ⟨r, w'⟩ := x
  cases r with
  | ok a => rfl
  | error e => cases e <;> rfl

theorem attempted_attempted (m : M α) :
    attempted (attempted m) = attempted m >>= fun x => pure (.ok x) := by
  funext env w
  simp only [attempted, bind, Prog.attempt]
  generalize m env w = x
  obtain ⟨r, w'⟩ := x
  cases r with
  | ok a => rfl
  | error e => cases e <;> rfl

theorem attempted_query (f : Env → Nat → World → Except Err α) :
    attempted (call fun env n w => (f env n w, w)) env w =
      match if env.fails w.calls then .error .io else f env w.calls w.tick with
      | .error (.panic s) => (.error (.panic s), w.tick)
      | x => (.ok x, w.tick) := by
  unfold attempted call
  cases hc : env.fails w.calls with
  | true => simp [bind, Prog.attempt, hc, pure]
  | false =>
    simp only [bind, Prog.attempt, hc, Bool.false_eq_true, if_false]
    generalize f env w.calls w.tick = x
    cases x with
    | ok a => rfl
    | error e => cases e <;> rfl

theorem wp_index {xs : List α} {i : Nat} (h : ∀ x, xs[i]? = some x → Q x w)
    (hE : xs.length ≤ i → E (.panic "index out of range") w) :
    Prog.wp (index xs i) env w Q E := by
  unfold index
  cases hx : xs[i]? with
  | some x => exact h x hx
  | none => exact hE (List.getElem?_eq_none_iff.1 hx)

/-! ## What a call keeps -/

theorem keeps_call {R : World → World → Prop} [IsTrans World R] (ht : ∀ w : World, R w w.tick)
    {f : Env → Nat → World → Except Err α × World} (hf : ∀ env n (w : World), R w (f env n w).2) :
    Prog.Keeps R (call f) := by
  intro env w
  unfold call
  split
  · exact ht w
  · exact IsTrans.trans _ _ _ (ht w) (hf env w.calls w.tick)

theorem keeps_attempted {R : World → World → Prop} [Std.Refl R] [IsTrans World R] {m : M α}
    (hm : Prog.Keeps R m) : Prog.Keeps R (attempted m) := by
  refine hm.attempt.bind fun x => ?_
  split
  · exact .throw _
  · exact .pure _

/-! ## Programs that only read -/

/-- The program changes nothing but the number of calls made. -/
def Quiet (m : M α) : Prop := ∀ env w, ∃ n, (m env w).2 = { w with calls := n }

namespace Quiet

variable {β : Type} {m : M α}

theorem pure (a : α) : Quiet (pure a : M α) := fun _ w => ⟨w.calls, rfl⟩

theorem throw (e : Err) : Quiet (Prog.throw e : M α) := fun _ w => ⟨w.calls, rfl⟩

theorem query (f : Env → Nat → World → Except Err α) :
    Quiet (call fun env n w => (f env n w, w)) := by
  intro env w
  refine ⟨w.calls + 1, ?_⟩
  unfold call
  split <;> rfl

theorem bind {f : α → M β} (hm : Quiet m) (hf : ∀ a, Quiet (f a)) : Quiet (m >>= f) := by
  intro env w
  obtain ⟨n, hn⟩ := hm env w
  simp only [Bind.bind]
  generalize m env w = x at hn
  match x, hn with
  | (.ok a, _), rfl => exact hf a env _
  | (.error e, _), rfl => exact ⟨n, rfl⟩

theorem attempt (hm : Quiet m) : Quiet (Prog.attempt m) := hm

theorem attempted (hm : Quiet m) : Quiet (attempted m) := by
  refine hm.attempt.bind fun x => ?_
  split
  · exact throw _
  · exact pure _

theorem keeps {R : World → World → Prop} (hR : ∀ (w : World) n, R w { w with calls := n })
    (hm : Quiet m) : Prog.Keeps R m := by
  intro env w
  obtain ⟨n, hn⟩ := hm env w
  rw [hn]
  exact hR w n

theorem ite {c : Prop} [Decidable c] {m' : M α} (hm : Quiet m) (hm' : Quiet m') :
    Quiet (if c then m else m') := by
  split
  · exact hm
  · exact hm'

theorem wp_ends (hm : Quiet m) (hQ : ∀ a n, (m env w).1 = .ok a → Q a { w with calls := n })
    (hE : ∀ e n, (m env w).1 = .error e → E e { w with calls := n }) : Prog.wp m env w Q E := by
  obtain ⟨n, hn⟩ := hm env w
  unfold Prog.wp
  generalize m env w = x at hn hQ hE
  match x, hn, hQ, hE with
  | (.ok a, _), rfl, hQ, _ => exact hQ a n rfl
  | (.error e, _), rfl, _, hE => exact hE e n rfl

theorem wp_ok (hm : Quiet m) (hQ : ∀ a n, (m env w).1 = .ok a → Q a { w with calls := n })
    (hE : ∀ e n, E e { w with calls := n }) : Prog.wp m env w Q E :=
  hm.wp_ends hQ fun e n _ => hE e n

theorem wp (hm : Quiet m) (hQ : ∀ a n, Q a { w with calls := n })
    (hE : ∀ e n, E e { w with calls := n }) : Prog.wp m env w Q E :=
  hm.wp_ok (fun a n _ => hQ a n) hE

end Quiet

/-! ## What is left alone -/

/-- `w'` holds the orders `c` and the trades `ts`, `ms` and `rs` were published, and nothing else
changed. -/
structure World.Became (w : World) (c : Coll Order.hash) (ts : List Trade)
    (ms : List Message) (rs : List EngineResponse) (w' : World) : Prop where
  orders : w'.orders = c
  trades : w'.trades = ts
  orderQueue : w'.orderQueue = w.orderQueue ++ ms
  engineResponses : w'.engineResponses = w.engineResponses ++ rs
  tradeQueue : w'.tradeQueue = w.tradeQueue
  txQueue : w'.txQueue = w.txQueue
  txMessages : w'.txMessages = w.txMessages

/-- Nothing changed but the number of calls and what was sent to the websockets. -/
abbrev World.Same (w w' : World) : Prop := w.Became w.orders w.trades [] [] w'

theorem World.same_rfl (w : World) : w.Same w :=
  ⟨rfl, rfl, by simp, by simp, rfl, rfl, rfl⟩

theorem World.same_tick (w : World) : w.Same w.tick :=
  ⟨rfl, rfl, by simp, by simp, rfl, rfl, rfl⟩

theorem World.Became.trans {w w₁ w₂ : World} {c c' : Coll Order.hash} {ts ts' : List Trade}
    {ms ms' : List Message} {rs rs' : List EngineResponse} (h : w.Became c ts ms rs w₁)
    (h' : w₁.Became c' ts' ms' rs' w₂) : w.Became c' ts' (ms ++ ms') (rs ++ rs') w₂ where
  orders := h'.orders
  trades := h'.trades
  orderQueue := by rw [h'.orderQueue, h.orderQueue, List.append_assoc]
  engineResponses := by rw [h'.engineResponses, h.engineResponses, List.append_assoc]
  tradeQueue := h'.tradeQueue.trans h.tradeQueue
  txQueue := h'.txQueue.trans h.txQueue
  txMessages := h'.txMessages.trans h.txMessages

theorem World.Became.same {w w₁ w₂ : World} {c : Coll Order.hash} {ts : List Trade}
    {ms : List Message} {rs : List EngineResponse} (h : w.Became c ts ms rs w₁) (h' : w₁.Same w₂) :
    w.Became c ts ms rs w₂ := by
  rw [World.Same, h.orders, h.trades] at h'
  simpa using h.trans h'

/-- The program at most sends messages to websockets. -/
def Silent (m : M α) : Prop := ∀ (env : Env) (w : World), w.Same (m env w).2

namespace Silent

variable {β : Type} {m : M α}

theorem pure (a : α) : Silent (pure a : M α) := fun _ w => w.same_rfl

theorem throw (e : Err) : Silent (Prog.throw e : M α) := fun _ w => w.same_rfl

theorem quiet (hm : Quiet m) : Silent m := by
  intro env w
  obtain ⟨n, hn⟩ := hm env w
  rw [hn]
  exact ⟨rfl, rfl, by simp, by simp, rfl, rfl, rfl⟩

theorem index (xs : List α) (i : Nat) : Silent (index xs i) := by
  unfold Dex.index
  split
  · exact pure _
  · exact throw _

theorem bind {f : α → M β} (hm : Silent m) (hf : ∀ a, Silent (f a)) : Silent (m >>= f) := by
  intro env w
  have hw := hm env w
  simp only [Bind.bind]
  generalize m env w = x at hw
  match x, hw with
  | (.ok a, _), hw => exact hw.same (hf a env _)
  | (.error e, _), hw => exact hw

theorem same (hm : Silent m) :
    Prog.wp m env w (fun _ w' => w.Same w') (fun _ w' => w.Same w') :=
  Prog.wp_of_state (hm env w)

theorem wp (hm : Silent m) (h : Prog.wp m env w Q E) :
    Prog.wp m env w (fun a w' => w.Same w' ∧ Q a w') (fun e w' => w.Same w' ∧ E e w') :=
  Prog.wp_and hm.same h

end Silent

end Dex
