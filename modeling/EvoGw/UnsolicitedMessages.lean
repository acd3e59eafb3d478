import EvoGw.ReplyHandoff
import Mathlib.Data.List.Infix

/-!
# Messages of the reader's own

A reader replies to commands, and it also registers and sends logs when it likes.
The handler makes no difference: both kinds of messages are pushed onto the list of
the serial. A request is answered by a message of the reader's own exactly if it
meets the section of the handler between LPUSH and DEL, because it is blocked on the
list at the push or issues BLPOP before the deletion.
-/
namespace EvoGw.UnsolicitedMessages
open ThreadPrograms ThreadPools PoolTraces HandoffFate ListHistories Deliveries
open GatewayCalls JsonValues ServerRoute GatewayPool CommandResults ReplyHandoff

/-- A message of the reader's own: an object with `cmd` and without `ret`. -/
def ownMessage : Json → Bool
  | .obj fields => (fields.lookup "cmd").isSome && (fields.lookup "ret").isNone
  | _ => false

def unsolicited (rt : Runtime) (data : String) : Bool := (rt.parse data).any ownMessage

section Runs
variable {rt : Runtime}

/-- No command has returned a message of the reader's own. -/
def NoUnsolicited (s : State (gateway rt)) : Prop :=
  ∀ r c results, HasReturned s r c results → ∀ v, .device v ∈ results → ownMessage v = false

/-- If the log goes on with the LPUSH of a message of the reader's own, nobody is
blocked on its list then, and nobody issues BLPOP on it before the handler's DEL. -/
def MeetsNobody : List (Obs (gateway rt)) → Prop
  | .pushed t key d queue :: rest =>
      unsolicited rt d = true → queue = [] ∧ issuers key (untilClear t rest) = []
  | _ => True

instance : DecidablePred (@MeetsNobody rt) := fun rest =>
  match rest with
  | .pushed _ _ _ _ :: _ => inferInstanceAs (Decidable (_ → _))
  | [] => .isTrue trivial
  | .entered _ _ :: _ => .isTrue trivial
  | .called _ _ _ :: _ => .isTrue trivial
  | .acquired _ _ :: _ => .isTrue trivial
  | .released _ _ :: _ => .isTrue trivial
  | .pushFailed _ _ _ :: _ => .isTrue trivial
  | .cleared _ _ _ :: _ => .isTrue trivial
  | .clearFailed _ _ :: _ => .isTrue trivial
  | .awaited _ _ _ :: _ => .isTrue trivial
  | .awaitFailed _ _ :: _ => .isTrue trivial
  | .expired _ _ :: _ => .isTrue trivial

/-- The handlers of the reader's own messages run while nobody waits. -/
def KeptApart (s : State (gateway rt)) : Prop := ∀ rest ∈ s.log.tails, MeetsNobody rest

instance (s : State (gateway rt)) : Decidable (KeptApart s) :=
  inferInstanceAs (Decidable (∀ rest ∈ s.log.tails, _))

variable {ls : List (Label (gateway rt))} {s : State (gateway rt)}

/-- Whoever gets a message of the reader's own is the first of those who meet it. -/
theorem receivers_pushed (h : exec (boot rt) ls = some s) (calm : ∀ l ∈ ls, l.Calm) {t : Tid}
    {key d : String} {queue : List Tid} {pre post : List (Obs (gateway rt))}
    (hs : s.log = pre ++ .pushed t key d queue :: post) :
    receivers t s.log = (candidates t key queue post).take 1 :=
  ((run_fated h calm).story pre t key d queue post hs).1

/-- Requests get no message of the reader's own exactly if its handler meets nobody. -/
theorem keptApart_iff (h : exec (boot rt) ls = some s) (calm : ∀ l ∈ ls, l.Calm) :
    KeptApart s ↔ ∀ t key d queue, Obs.pushed t key d queue ∈ s.log → unsolicited rt d = true →
      receivers t s.log = [] := by
  constructor
  · intro hapart t key d queue hmem hown
    obtain ⟨pre, post, hs⟩ := List.append_of_mem hmem
    obtain ⟨rfl, hissuers⟩ := hapart _ ((List.mem_tails _ _).mpr ⟨pre, hs.symm⟩) hown
    rw [receivers_pushed h calm hs, candidates, hissuers]
    rfl
  · intro hnone rest hrest
    obtain ⟨pre, hs⟩ := (List.mem_tails _ _).mp hrest
    unfold MeetsNobody
    split
    · rename_i t key d queue post
      intro hown
      have hmem : Obs.pushed t key d queue ∈ s.log := by simp [← hs]
      have hreceivers := hnone t key d queue hmem hown
      rw [receivers_pushed h calm hs.symm, List.take_eq_nil_iff] at hreceivers
      exact List.append_eq_nil_iff.mp (hreceivers.resolve_left Nat.one_ne_zero)
    · trivial

/-- In every run without Redis failures, no request is answered by a message of the
reader's own exactly if such messages are handled while nobody waits on their list. -/
theorem noUnsolicited_iff (h : exec (boot rt) ls = some s) (calm : ∀ l ∈ ls, l.Calm) :
    NoUnsolicited s ↔ KeptApart s := by
  rw [keptApart_iff h calm]
  constructor
  · intro hnone t key d queue hmem hown
    rw [List.eq_nil_iff_forall_not_mem]
    intro r hr
    obtain ⟨c, results, v, hreturned, hvt, w, data, p, ht, hparse⟩ := (returnedFrom_iff h).mpr hr
    obtain ⟨⟨w', p', ht'⟩, -⟩ := pusher_message h hmem
    rw [ht] at ht'
    cases ht'
    obtain ⟨result, hresult, hmessage⟩ := List.mem_filterMap.mp (List.of_mem_zip hvt).1
    cases result with
    | error m => cases hmessage
    | device v' =>
        cases hmessage
        have hclean := hnone r c results hreturned v hresult
        rw [unsolicited, hparse, Option.any_some, hclean] at hown
        cases hown
  · intro hnone r c results hreturned v hv
    obtain ⟨t, hsender, w, data, p, ht, hparse⟩ := hreturned.from_handler h hv
    obtain ⟨x, hx, rfl⟩ := List.mem_map.mp hsender
    obtain ⟨⟨o, ho, hdelivered⟩, -⟩ := mem_deliveredTo.mp hx
    obtain ⟨-, q, hpushed⟩ := delivers_of_delivered (exec_recorded h) ho hdelivered
    obtain ⟨⟨w', p', ht'⟩, -⟩ := pusher_message h hpushed
    rw [ht] at ht'
    cases ht'
    by_contra hown
    have hunsolicited : unsolicited rt x.data = true := by
      rw [unsolicited, hparse, Option.any_some, Bool.eq_true_of_not_eq_false hown]
    have hr := mem_senders.mp hsender
    rw [hnone _ _ _ _ hpushed hunsolicited] at hr
    cases hr

end Runs

/-- The reader sends a log while nobody waits, and later replies to a request. -/
def separated : List (Label (gateway reader)) :=
  registration ++ .enter (.message 0 "sendlog") :: turns 2 9 ++
    .enter (.post "A" "user_list" "") :: turns 3 4 ++ .enter (.message 0 "reply") :: turns 4 3

theorem noUnsolicited_separated : outcome (after separated) 3 =
      some (.answered ⟨200, .single (.bool true) (.device
        (.obj [("ret", .str "getuserlist"), ("sn", .str "A"), ("result", .bool true)]))⟩) ∧
    NoUnsolicited (after separated) := by
  have run : exec (boot reader) separated = some (after separated) := rfl
  have calm : ∀ l ∈ separated, l.Calm := by decide
  have apart : KeptApart (after separated) := by decide
  exact ⟨rfl, (noUnsolicited_iff run calm).mpr apart⟩

/-- The reader sends a log of its own while a request waits for its reply. -/
def interrupted : List (Label (gateway reader)) :=
  registration ++ .enter (.post "A" "user_list" "") :: turns 2 4 ++
    .enter (.message 0 "sendlog") :: turns 3 2

/-- The only request in flight returns the log record as its answer. -/
theorem answered_by_sendlog :
    exec (boot reader) interrupted = some (after interrupted) ∧ (∀ l ∈ interrupted, l.Calm) ∧
    unsolicited reader "sendlog" = true ∧
    outcome (after interrupted) 2 = some (.answered ⟨200, .single .null (.device
      (.obj [("cmd", .str "sendlog"), ("sn", .str "A"), ("count", .int 1),
        ("logindex", .int 0)]))⟩) ∧
    ¬ NoUnsolicited (after interrupted) := by
  have run : exec (boot reader) interrupted = some (after interrupted) := rfl
  refine ⟨run, by decide, rfl, rfl, fun hnone => ?_⟩
  have ht : (after interrupted).threads[2]? = some ⟨.post "A" "user_list" "", _⟩ := rfl
  obtain ⟨results, hreturned, hshows⟩ := exec_returned run ht
  obtain ⟨-, hbody⟩ := hshows _ rfl rfl
  cases hbody
  have hown := hnone 2 "A" _ hreturned _ List.mem_cons_self
  revert hown
  decide

end EvoGw.UnsolicitedMessages
