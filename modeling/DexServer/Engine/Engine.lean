import DexServer.Engine.OrderBook

/-!
# The engine's message handlers (`engine/engine.go`)

A message is decoded, its pair code looked up among the order books, and the operation of that
book run. All books share the store, so a book is its pair code.
-/

namespace Dex

open Lib

structure Engine where
  /-- the pair codes that have an order book -/
  orderbooks : List String

/-- The state without the `i`-th message of the queue `order`. -/
def World.take (w : World) (i : Nat) : World := { w with orderQueue := w.orderQueue.eraseIdx i }

@[simp] theorem World.take_orders (w : World) (i : Nat) : (w.take i).orders = w.orders := rfl
@[simp] theorem World.take_emitted (w : World) (i : Nat) : (w.take i).emitted = w.emitted := rfl
@[simp] theorem World.take_orderQueue (w : World) (i : Nat) :
    (w.take i).orderQueue = w.orderQueue.eraseIdx i := rfl

namespace Engine

/-- The handlers but the last: an unknown pair code is an error. -/
def onBook (e : Engine) (pairCode : Eth → Except String String) (operation : M Unit) : M Unit := do
  let env ← Prog.ask
  let code ← checked (pairCode env.eth)
  if code ∈ e.orderbooks then operation else .throw (.msg "Orderbook error")

def handleAddOrder (e : Engine) (o : Order) : M Unit := e.onBook o.pairCode (addOrder o)

def handleNewOrder (e : Engine) (o : Order) : M Unit := e.onBook o.pairCode (newOrder o)

def handleCancelOrder (e : Engine) (o : Order) : M Unit := e.onBook o.pairCode (cancelOrder o)

def handleInvalidateMakerOrders (e : Engine) (m : Matches) : M Unit :=
  e.onBook m.pairCode (invalidateMakerOrders m)

/-- It returns the error of `PairCode` for an unknown code, which is nil there. -/
def handleInvalidateTakerOrders (e : Engine) (m : Matches) : M Unit := do
  let env ← Prog.ask
  let code ← checked (m.pairCode env.eth)
  if code ∈ e.orderbooks then invalidateTakerOrders m else pure ()

/-- `HandleOrders`. -/
def handleOrders (e : Engine) : Message → M Unit
  | .NEW_ORDER o => e.handleNewOrder o
  | .ADD_ORDER o => e.handleAddOrder o
  | .CANCEL_ORDER o => e.handleCancelOrder o
  | .INVALIDATE_MAKER_ORDERS m => e.handleInvalidateMakerOrders m
  | .INVALIDATE_TAKER_ORDERS m => e.handleInvalidateTakerOrders m
  | .unknown _ => pure ()

/-- A message is taken from the queue and handled. Every message is handled in a goroutine of its
own, so it may be any message of the queue. -/
def deliver (e : Engine) (env : Env) (i : Nat) (w : World) : World :=
  match w.orderQueue[i]? with
  | some m => (e.handleOrders m env (w.take i)).2
  | none => w

/-- The engine has a book for the pair of `o`. -/
def HasBook (e : Engine) (env : Env) (o : Order) : Prop :=
  ∃ code ∈ e.orderbooks, o.pairCode env.eth = .ok code

section
variable {e : Engine} {code : Eth → Except String String} {op : M Unit} {env : Env} {w : World}

theorem onBook_eq (h : ∃ c ∈ e.orderbooks, code env.eth = .ok c) :
    e.onBook code op env w = op env w := by
  obtain ⟨c, hc, hp⟩ := h
  simp only [onBook, Bind.bind, Prog.ask, checked, Prog.ofExcept, hp, Except.mapError, if_pos hc]

theorem onBook_ignored (h : ¬∃ c ∈ e.orderbooks, code env.eth = .ok c) :
    (e.onBook code op env w).2 = w := by
  refine Prog.wp_state (P := fun w' => w' = w) ?_
  unfold onBook
  simp only [Prog.wp_bind, Prog.wp_ask]
  refine wp_checked (fun c hc => ?_) fun _ => rfl
  rw [if_neg fun hm => h ⟨c, hm, hc⟩]
  rfl

variable (e code op env w)

theorem onBook_cases :
    (e.onBook code op env w).2 = w ∨ (e.onBook code op env w).2 = (op env w).2 := by
  by_cases h : ∃ c ∈ e.orderbooks, code env.eth = .ok c
  · exact .inr (by rw [onBook_eq h])
  · exact .inl (onBook_ignored h)

end

theorem deliver_newOrder (e : Engine) (env : Env) {o : Order} {w : World} {i : Nat}
    (hi : w.orderQueue[i]? = some (.NEW_ORDER o)) :
    e.deliver env i w = w.take i ∨ e.deliver env i w = (newOrder o env (w.take i)).2 := by
  unfold deliver
  rw [hi]
  exact e.onBook_cases o.pairCode (newOrder o) env _

theorem deliver_newOrder_eq {e : Engine} {env : Env} {o : Order} {w : World} {i : Nat}
    (hm : w.orderQueue[i]? = some (.NEW_ORDER o)) (hb : e.HasBook env o) :
    e.deliver env i w = (newOrder o env (w.take i)).2 := by
  simp only [deliver, hm, handleOrders, handleNewOrder]
  rw [onBook_eq]
  exact hb

end Engine

end Dex
