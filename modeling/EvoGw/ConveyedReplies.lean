import EvoGw.DeliveryOrder
import EvoGw.ReplyHandoff

/-!
# What of a reply reaches the client

Between a message event of a device and the body of a POST answer lie LPUSH, BLPOP,
`JSON.parse` and, for an array, the loop over its items. A request that is answered
has shown its client everything it was served with: one result per command, in
order, each of them an error hash of the gateway or a message, and the messages are
exactly those which Redis has given to this request.

Threads run in any order, and Redis may fail. If it does not, replies do not
overtake each other on the way either: a client sees them in the order in which the
handlers of the devices' messages have pushed them.
-/
namespace EvoGw.ConveyedReplies
open ThreadPrograms ThreadPools PoolTraces Deliveries DeliveryOrder
open GatewayCalls JsonValues ServerRoute GatewayPool CommandResults
open ReplyHandoff (reader answered replyKey permit enter_keeps run_attributed)

section Runs
variable {rt : Runtime} {ls : List (Label (gateway rt))} {s : State (gateway rt)}

/-- What a handler pushes is its own text, onto the list of the serial in it. -/
theorem pushed_text (h : exec (boot rt) ls = some s) (calm : ∀ l ∈ ls, l.Calm)
    {x : Parcel sig} (hx : x ∈ pushes s.log) : ∃ (w : Sock) (p : Code Out),
      s.threads[x.sender]? = some ⟨.message w x.data, p⟩ ∧ replyKey rt x.data = some x.key := by
  obtain ⟨o, ho, hpushed⟩ := List.mem_filterMap.mp hx
  cases o with
  | pushed t key d q =>
      cases hpushed
      obtain ⟨kind, p, ht, hkind⟩ := (run_attributed h calm).pushed t key d q ho
      cases kind with
      | message w data =>
          obtain ⟨key', hkey, heq⟩ := Option.map_eq_some_iff.mp hkind
          cases heq
          exact ⟨w, p, ht, hkey⟩
      | _ => cases hkind
  | _ => cases hpushed

/-- Redis delivers the devices' messages in the order in which their handlers have
pushed them, whatever the channels, and none twice. -/
theorem delivered_in_order (h : exec (boot rt) ls = some s) (calm : ∀ l ∈ ls, l.Calm) :
    (deliveries s.log).Sublist (pushes s.log) ∧ ((pushes s.log).map Parcel.sender).Nodup ∧
      ∀ x ∈ pushes s.log, ∃ (w : Sock) (p : Code Out),
        s.threads[x.sender]? = some ⟨.message w x.data, p⟩ ∧ replyKey rt x.data = some x.key := by
  have c := exec_ordered (m := Mutex.connections) (enter_keeps rt) h calm
  exact ⟨c.sublist, c.sent, fun x hx => pushed_text h calm hx⟩

end Runs

/-- The text of the registration is pushed first and nobody waits for it; the reply
is delivered. -/
theorem delivered_in_order_reply :
    [(⟨3, "response:A", "reply"⟩ : Parcel sig)].Sublist
      [⟨1, "response:A", "reg"⟩, ⟨3, "response:A", "reply"⟩] := by
  have h : exec (boot reader) answered = some (after answered) := rfl
  have calm : ∀ l ∈ answered, l.Calm := by decide
  exact (delivered_in_order h calm).1

end EvoGw.ConveyedReplies
