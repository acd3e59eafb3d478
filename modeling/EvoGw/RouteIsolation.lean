import EvoGw.ReplyHandoff
import EvoGw.PoolContracts

/-!
# No misdirected command or reply

Commands reach a device through the table of connections or through a subscriber
service, replies reach a request through the list of its channel. All three are
filled by message handlers only, and a handler fills them under the serial of its
own message and with its own socket. The threads therefore work under a contract
whose facts are which socket has sent which serial and which service was made
for which channel.

Redis may refuse at any time here, and requests may time out. Messages are JSON
objects whose `sn` is a string or absent; a service made without `sn` never
listens, because Redis refuses to subscribe to `nil`.
-/
namespace EvoGw.RouteIsolation
open ThreadPrograms ThreadPools PoolTraces PoolContracts InsertionHash ListHistories Deliveries
open GatewayCalls JsonValues WebSocketHandler ServerRoute GatewayPool CommandResults ReplyHandoff

/-- A JSON object whose `sn` is a string or absent. -/
def Proper (rt : Runtime) (data : String) : Prop :=
  ∃ fields, rt.parse data = some (.obj fields) ∧
    (fetch fields "sn" = .null ∨ ∃ c, fetch fields "sn" = .str c)

/-- The document is the answer to the registration or to the log in this message. -/
def IsAcknowledgement (rt : Runtime) (data : String) (doc : Json) : Prop :=
  ∃ fields time, rt.parse data = some (.obj fields) ∧
    ((fetch fields "cmd" = .str "reg" ∧ doc = regResponse time) ∨
     (fetch fields "cmd" = .str "sendlog" ∧
        doc = sendlogResponse (fetch fields "count") (fetch fields "logindex") time))

/-- Which socket has sent a message with which serial, and which service was made
for which channel. -/
structure Facts where
  sent : Sock → String → Prop
  serves : Sid → String → Prop

instance : Preorder Facts where
  le a b := (∀ w c, a.sent w c → b.sent w c) ∧ (∀ sid c, a.serves sid c → b.serves sid c)
  le_refl _ := ⟨fun _ _ h => h, fun _ _ h => h⟩
  le_trans _ _ _ h h' :=
    ⟨fun w c hs => h'.1 w c (h.1 w c hs), fun sid c hs => h'.2 sid c (h.2 sid c hs)⟩

/-- Which frames a thread may write to which socket. -/
def FrameOk (rt : Runtime) (facts : Facts) : Kind → Sock → Json → Prop
  | .post c _ _, w, _ => facts.sent w c
  | .command sid _, w, _ => ∃ c, facts.serves sid c ∧ facts.sent w c
  | .message w' data, w, doc => w' = w ∧ IsAcknowledgement rt data doc
  | _, _, _ => False

theorem FrameOk.mono {rt : Runtime} {facts facts' : Facts} (hle : facts ≤ facts') {kind : Kind}
    {w : Sock} {doc : Json} (h : FrameOk rt facts kind w doc) : FrameOk rt facts' kind w doc := by
  cases kind with
  | post c command body => exact hle.1 w c h
  | command sid text =>
      obtain ⟨c, hserves, hsent⟩ := h
      exact ⟨c, hle.2 sid c hserves, hle.1 w c hsent⟩
  | message w' data => exact h
  | _ => exact h

def Ok (rt : Runtime) (facts : Facts) (kind : Kind) : Prim sig → Prop
  | .call (.wsSend (some w) doc) => FrameOk rt facts kind w doc
  | .call (.connSet (.serial (.str c)) (some w)) => facts.sent w c
  | .call (.newService _ channel (some w)) =>
      channel = .null ∨ ∃ c, channel = .str c ∧ facts.sent w c
  | .push key d => ∀ c, key = responseKey c → Carries rt d c
  | _ => True

def Sound (rt : Runtime) (facts : Facts) : Event sig → Prop
  | ⟨.call (.connGet c), r⟩ => ∀ w, r = some w → facts.sent w c
  | ⟨.call (.wsVar w), r⟩ => ∀ w', r = some w' → w' = w
  | ⟨.await key, r⟩ => ∀ d, r = .got d → ∀ c, key = responseKey c → Carries rt d c
  | _ => True

/-- A device message in the result of a command is one of the channel. -/
def Own (c : String) : Result → Prop
  | .device v => v.index "sn" = .ok (.str c)
  | .error _ => True

section Requests
variable {rt : Runtime} {facts : Facts} {kind : Kind} {c : String}

theorem relies_lift {A : Type} {sound : Event sig → Prop} {ok : Prim sig → Prop}
    (e : Except RubyError A) : Relies sound ok (fun a => e = .ok a) (lift e) := by
  cases e with
  | ok a => rfl
  | error e => trivial

theorem relies_parse {sound : Event sig → Prop} {ok : Prim sig → Prop} (text : String) :
    Relies sound ok (fun v => rt.parse text = some v) (parse rt text) := by
  unfold parse
  cases h : rt.parse text with
  | none => trivial
  | some v => rfl

/-- Commands write to the given socket only. -/
theorem uses_frames {ws : Option Sock} {p : Code Unit} (hp : Uses (DevicesSender.IsSend ws) p)
    (hws : ∀ w, ws = some w → ∀ doc, FrameOk rt facts kind w doc) : Uses (Ok rt facts kind) p := by
  apply hp.mono
  rintro q ⟨doc, rfl⟩
  cases ws with
  | none => trivial
  | some w => exact hws w rfl doc

theorem relies_handleWsCommand (hkind : ∀ w doc, facts.sent w c → FrameOk rt facts kind w doc)
    (command : String) (args : List Json) :
    Relies (Sound rt facts) (Ok rt facts kind) (fun _ => True)
      (handleWsCommand rt c command args) := by
  rw [handleWsCommand_eq]
  refine ⟨trivial, fun found hfound => ?_⟩
  cases found with
  | none => trivial
  | some ws =>
      have frames : Uses (Ok rt facts kind) (DevicesSender.send rt (some ws) command args) := by
        refine uses_frames (DevicesSender.sends_send command args).uses ?_
        intro w hw doc
        exact hkind w doc (hfound w hw)
      exact (Relies.of_uses frames).seq
        (fun _ => Relies.of_uses (uses_awaitReply trivial trivial))

end Requests

section Handlers
variable {rt : Runtime} {facts : Facts} {kind : Kind} {w : Sock} {data : String} {sn : Json}

/-- The `sn` of a proper message: absent, or a serial which the socket has sent. -/
def Announced (rt : Runtime) (facts : Facts) (w : Sock) (data : String) (sn : Json) : Prop :=
  sn = .null ∨ ∃ c, sn = .str c ∧ Carries rt data c ∧ facts.sent w c

theorem relies_call {c : Call} (h : Ok rt facts kind (.call c)) :
    Relies (Sound rt facts) (Ok rt facts kind) (fun r => Sound rt facts ⟨.call c, r⟩) (call c) :=
  ⟨h, fun _ hr => hr⟩

theorem relies_handOver (h : Announced rt facts w data sn) :
    Relies (Sound rt facts) (Ok rt facts kind) (fun _ => True) (handOver rt sn data) := by
  refine Relies.synchronize trivial trivial ?_
  rcases h with rfl | ⟨c, rfl, hc, -⟩
  · trivial
  · have hpush : Ok rt facts kind (.push (responseKey c) data) := by
      intro c' hc'
      rw [← responseKey_inj.mp hc']
      exact hc
    refine Relies.seq (p := lpush (responseKey c) data) ⟨hpush, fun r _ => ?_⟩
      (fun _ => ⟨trivial, fun r _ => ?_⟩)
    · cases r <;> trivial
    · cases r <;> trivial

theorem relies_registerRoute (h : Announced rt facts w data sn) :
    Relies (Sound rt facts) (Ok rt facts kind) (fun _ => True) (registerRoute w sn) := by
  rcases h with rfl | ⟨c, rfl, -, hs⟩
  · trivial
  · unfold registerRoute
    rw [if_pos (Json.truthy_str c), Json.eqlKey_str]
    refine Relies.synchronize trivial trivial ⟨trivial, fun ws hws => ⟨?_, fun _ _ => trivial⟩⟩
    cases ws with
    | none => trivial
    | some w' =>
        rw [← hws w' rfl] at hs
        exact hs

theorem relies_start (sid : Sid) (w : Sock) (channel : Json) :
    Relies (Sound rt facts) (Ok rt facts kind) (fun _ => True) (start sid w channel) := by
  refine Relies.bind (Relies.synchronize trivial trivial
    (relies_call (c := .registered w channel) trivial)) (fun known _ => ?_)
  cases known with
  | true => trivial
  | false =>
      refine (relies_call (c := .threadAlive sid) trivial).bind (fun alive _ => ?_)
      cases alive with
      | true => trivial
      | false =>
          refine Relies.bind (Relies.synchronize trivial trivial
            (relies_call (c := .register w channel) trivial)) (fun _ _ => ?_)
          exact ⟨trivial, fun _ _ => trivial⟩

theorem relies_startSubscriber (h : Announced rt facts w data sn) :
    Relies (Sound rt facts) (Ok rt facts kind) (fun _ => True) (startSubscriber w sn) := by
  refine ⟨trivial, fun ws hws => ⟨?_, fun sid _ => ?_⟩⟩
  · cases ws with
    | none => trivial
    | some w' =>
        rw [hws w' rfl]
        rcases h with rfl | ⟨c, rfl, -, hs⟩
        · exact .inl rfl
        · exact .inr ⟨c, rfl, hs⟩
  · exact relies_start sid w sn

theorem relies_responseWs {ws : Option Sock} {doc : Json} (hws : ∀ w', ws = some w' → w' = w)
    (hdoc : IsAcknowledgement rt data doc) :
    Relies (Sound rt facts) (Ok rt facts (.message w data)) (fun _ => True)
      (responseWs rt ws doc) := by
  have ack : Ok rt facts (.message w data) (.call (.wsSend ws doc)) := by
    cases ws with
    | none => trivial
    | some w' => exact ⟨(hws w' rfl).symm, hdoc⟩
  have generated : Relies (Sound rt facts) (Ok rt facts (.message w data)) (fun _ => True)
      (generate rt doc) := Relies.of_uses (DevicesSender.uses_generate doc)
  refine Relies.seq (generated.seq (fun _ => ?_)) (fun _ => generated)
  refine ⟨ack, fun r _ => ?_⟩
  cases r <;> trivial

theorem relies_handleReg {fields : List (String × Json)} {ws : Option Sock}
    (hp : rt.parse data = some (.obj fields)) (hws : ∀ w', ws = some w' → w' = w) :
    Relies (Sound rt facts) (Ok rt facts (.message w data)) (fun _ => True)
      (handleReg rt (.obj fields) ws) := by
  unfold handleReg
  simp only [index_obj, lift, Program.pure_eq, Program.done_bind]
  refine (Relies.of_uses (DevicesSender.uses_generate _)).seq (fun _ => ?_)
  split
  · rename_i hcmd
    exact ⟨trivial, fun time _ => relies_responseWs hws ⟨fields, time, hp, .inl ⟨hcmd, rfl⟩⟩⟩
  · split
    · rename_i hcmd
      exact ⟨trivial, fun time _ => relies_responseWs hws ⟨fields, time, hp, .inr ⟨hcmd, rfl⟩⟩⟩
    · trivial

theorem relies_onMessage (hproper : Proper rt data)
    (hsent : ∀ c, Carries rt data c → facts.sent w c) :
    Relies (Sound rt facts) (Ok rt facts (.message w data)) (fun _ => True)
      (onMessage rt w data) := by
  obtain ⟨fields, hp, hsn⟩ := hproper
  have announced : Announced rt facts w data (fetch fields "sn") := by
    rcases hsn with hnull | ⟨c, hc⟩
    · exact .inl hnull
    · have hcarries : Carries rt data c := ⟨.obj fields, hp, by rw [index_obj, hc]⟩
      exact .inr ⟨c, hc, hcarries, hsent c hcarries⟩
  unfold onMessage
  simp only [parse, hp, lift, index_obj, Program.pure_eq, Program.done_bind]
  refine (relies_handOver announced).seq (fun _ => ?_)
  refine (relies_registerRoute announced).seq (fun _ => ?_)
  refine ⟨trivial, fun ws hws => ?_⟩
  refine (relies_handleReg hp hws).seq (fun _ => ?_)
  split
  · refine ⟨trivial, fun r _ => ?_⟩
    cases r <;> trivial
  · exact relies_startSubscriber announced

theorem relies_onPublished {sid : Sid} {ws : Option Sock} (text : String)
    (hws : ∀ w, ws = some w → ∃ c, facts.serves sid c ∧ facts.sent w c) :
    Relies (Sound rt facts) (Ok rt facts (.command sid text)) (fun _ => True)
      (onPublished rt sid ws text) := by
  refine (relies_call (c := .stopRequested sid) trivial).bind (fun stopped _ => ?_)
  cases stopped with
  | true => trivial
  | false =>
      refine Relies.rescue ?_ (fun _ => trivial)
      refine (relies_parse _).bind (fun payload _ => ?_)
      refine (relies_lift _).bind (fun command _ => ?_)
      refine (relies_lift _).bind (fun args _ => ?_)
      split
      · refine Relies.synchronize trivial trivial (Relies.of_uses ?_)
        exact uses_frames (sends_sendPayload command _).uses (fun w hw _ => hws w hw)
      · trivial

theorem relies_subscriberEnds (sid : Sid) (w : Sock) (channel : Json) :
    Relies (Sound rt facts) (Ok rt facts kind) (fun _ => True)
      (subscriberEnds sid w channel) := by
  refine Relies.seq (Relies.synchronize trivial trivial ?_) (fun _ => ⟨trivial, fun _ _ => trivial⟩)
  refine (relies_call (c := .registered w channel) trivial).bind (fun known _ => ?_)
  cases known with
  | true => exact ⟨trivial, fun _ _ => trivial⟩
  | false => trivial

theorem relies_onOpen : Relies (Sound rt facts) (Ok rt facts kind) (fun _ => True) (onOpen w) :=
  Relies.synchronize trivial trivial ⟨trivial, fun _ _ => trivial⟩

theorem relies_onClose :
    Relies (Sound rt facts) (Ok rt facts kind) (fun _ => True) (onClose w) := by
  refine Relies.seq (Relies.synchronize trivial trivial ?_)
    (fun _ => ⟨trivial, fun _ _ => trivial⟩)
  exact ⟨trivial, fun _ _ => ⟨trivial, fun _ _ => ⟨trivial, fun _ _ => trivial⟩⟩⟩

end Handlers

section Runs
variable {rt : Runtime} {s s' : State (gateway rt)} {l : Label (gateway rt)} {o : Obs (gateway rt)}

/-- The socket has sent a message with this serial. -/
def HasSent (log : List (Obs (gateway rt))) (w : Sock) (c : String) : Prop :=
  ∃ t data, Obs.entered (M := gateway rt) t (.message w data) ∈ log ∧ Carries rt data c

def facts (s : State (gateway rt)) : Facts :=
  ⟨HasSent s.log, fun sid c => ∃ v, s.world.services[sid]? = some v ∧ v.channel = .str c⟩

theorem HasSent.append {log log' : List (Obs (gateway rt))} {w : Sock} {c : String}
    (h : HasSent log w c) : HasSent (log ++ log') w c := by
  obtain ⟨t, data, hm, hc⟩ := h
  exact ⟨t, data, List.mem_append_left _ hm, hc⟩

/-- The routes and the lists hold what the facts justify. -/
structure Justified (s : State (gateway rt)) : Prop where
  routes : ∀ c w, (ConnKey.serial (.str c), some w) ∈ s.world.connections.entries →
    HasSent s.log w c
  services : ∀ (sid : Sid) v, s.world.services[sid]? = some v → ∀ w, v.ws = some w →
    v.channel = .null ∨ ∃ c, v.channel = .str c ∧ HasSent s.log w c
  items : ∀ c, ∀ i ∈ s.lists (responseKey c), Carries rt i.data c

def contract (rt : Runtime) : Contract (gateway rt) Facts where
  view := facts
  sound := Sound rt
  ok := Ok rt
  sound_mono := by
    intro a b e hab h
    obtain ⟨p, r⟩ := e
    cases p with
    | call c =>
        cases c with
        | connGet c => exact fun w hw => hab.1 w c (h w hw)
        | _ => exact h
    | _ => exact h

theorem facts_grow (h : Step s l o s') : facts s ≤ facts s' := by
  refine ⟨fun w c hs => ?_, ?_⟩
  · show HasSent s'.log w c
    rw [step_log h]
    exact hs.append
  · rintro sid c ⟨v, hv, hc⟩
    cases h with
    | call ht =>
        obtain ⟨v', hv', hsame⟩ := perform_service_stays s.world _ _ hv
        exact ⟨v', hv', hsame.2.1.trans hc⟩
    | @enter kind w p henter =>
        obtain ⟨p', -, heq⟩ := Option.map_eq_some_iff.mp henter
        cases heq
        exact ⟨v, hv, hc⟩
    | _ => exact ⟨v, hv, hc⟩

/-- A step changes the world by a call or not at all. -/
theorem step_performs (h : Step s l o s') : s'.world = s.world ∨
    ∃ (t : Tid) (kind : Kind) (c : Call) (choice : Choice) (k : c.Resp → Code Out),
      s.threads[t]? = some ⟨kind, .act (.call c) k⟩ ∧ s'.world = (perform s.world choice c).1 := by
  cases h with
  | @call t choice kind c k ht => exact .inr ⟨t, kind, c, choice, k, ht, rfl⟩
  | enter henter =>
      obtain ⟨p', -, heq⟩ := Option.map_eq_some_iff.mp henter
      cases heq
      exact .inl rfl
  | _ => exact .inl rfl

theorem step_routes (j : Justified s) (law : (contract rt).Lawful s) (h : Step s l o s')
    {c : String} {w : Sock}
    (hm : (ConnKey.serial (.str c), some w) ∈ s'.world.connections.entries) :
    HasSent s'.log w c := by
  rw [step_log h]
  rcases step_performs h with hw | ⟨t, kind, call, choice, k, ht, hw⟩
  · rw [hw] at hm
    exact (j.routes c w hm).append
  · rw [hw] at hm
    rcases perform_route s.world choice call hm with hold | rfl
    · exact (j.routes c w hold).append
    · exact HasSent.append (law t kind _ _ ht)

theorem step_services (j : Justified s) (law : (contract rt).Lawful s) (h : Step s l o s')
    {sid : Sid} {v : Service} (hv : s'.world.services[sid]? = some v) {w : Sock}
    (hws : v.ws = some w) : v.channel = .null ∨ ∃ c, v.channel = .str c ∧ HasSent s'.log w c := by
  have grown : (v.channel = .null ∨ ∃ c, v.channel = .str c ∧ HasSent s.log w c) →
      v.channel = .null ∨ ∃ c, v.channel = .str c ∧ HasSent s'.log w c := by
    rw [step_log h]
    exact Or.imp_right (fun ⟨c, hc, hs⟩ => ⟨c, hc, hs.append⟩)
  apply grown
  rcases step_performs h with hw | ⟨t, kind, call, choice, k, ht, hw⟩
  · rw [hw] at hv
    exact j.services sid v hv w hws
  · rw [hw] at hv
    rcases perform_service s.world choice call hv with ⟨v₀, hv₀, -, hch, hws₀⟩ | rfl
    · rw [hch]
      exact j.services sid v₀ hv₀ w (hws₀.symm.trans hws)
    · have made := law t kind _ _ ht
      rw [hws] at made
      exact made

theorem step_items_carry (j : Justified s) (law : (contract rt).Lawful s) (h : Step s l o s')
    {c : String} {i : Item sig} (hi : i ∈ s'.lists (responseKey c)) : Carries rt i.data c := by
  rcases step_item h hi with hm | ⟨-, kind, k, ht⟩
  · exact j.items c i hm
  · exact law i.pusher kind _ _ ht c rfl

theorem step_justified (j : Justified s) (law : (contract rt).Lawful s) (h : Step s l o s') :
    Justified s' :=
  ⟨fun _ _ hm => step_routes j law h hm, fun _ _ hv _ hws => step_services j law h hv hws,
    fun _ _ hi => step_items_carry j law h hi⟩

theorem hears_sound (j : Justified s) (law : (contract rt).Lawful s) {e : Event sig}
    (h : Hears s e) : Sound rt (facts s) e := by
  cases h with
  | @called t kind c k choice ht =>
      cases c with
      | connGet channel =>
          intro w hw
          exact j.routes channel w (Hash.get?_eq_some.mp (Option.join_eq_some_iff.mp hw))
      | wsVar w =>
          intro w' hw
          simp only [perform] at hw
          split_ifs at hw
          exact (Option.some.inj hw).symm
      | _ => trivial
  | handed ht =>
      rintro d ⟨⟩ c hc
      exact law _ _ _ _ ht c hc
  | taken hi =>
      rintro d ⟨⟩ c rfl
      exact j.items c _ hi
  | unserved hne => exact fun d hd => absurd hd (hne d)
  | _ => trivial

/-- Message handlers enter for proper messages only. -/
def ProperEntry : Label (gateway rt) → Prop
  | .enter (.message _ data) => Proper rt data
  | _ => True

theorem relies_entered {A : Type} {kind : Kind} {known : Facts} {p : Code A} {out : A → Out}
    (hp : Relies (Sound rt known) (Ok rt known kind) (fun _ => True) p) :
    Relies (Sound rt known) (Ok rt known kind) (fun _ => True) (out <$> p) := by
  rw [map_eq_pure_bind]
  exact hp.seq (fun _ => trivial)

theorem entitled (j : Justified s) (hl : ProperEntry l) {u : Tid} {kind : Kind} {w' : World}
    {p : Code Out} (h : Step s l (.entered u kind) s')
    (henter : (gateway rt).enter s.world u kind = some (w', p)) :
    (contract rt).Entitled (facts s') kind p := by
  obtain ⟨p', hp', heq⟩ := Option.map_eq_some_iff.mp henter
  cases heq
  have hlog := step_log h
  intro known hknown
  cases kind with
  | opened w =>
      cases hp'
      exact relies_entered relies_onOpen
  | closed w =>
      cases hp'
      exact relies_entered relies_onClose
  | message w data =>
      cases hp'
      have hproper : Proper rt data := by
        cases h
        exact hl
      refine relies_entered (relies_onMessage hproper ?_)
      intro c hc
      refine hknown.1 w c ⟨u, data, ?_, hc⟩
      rw [hlog]
      exact List.mem_append_right _ List.mem_cons_self
  | post c command body =>
      cases hp'
      have hkind : ∀ w doc, known.sent w c → FrameOk rt known (.post c command body) w doc :=
        fun _ _ hsent => hsent
      exact relies_entered (relies_requests (fun args => relies_handleWsCommand hkind command args))
  | command sid text =>
      simp only [program] at hp'
      split at hp'
      · rename_i v hv
        split_ifs at hp' with hlisten
        cases hp'
        refine relies_entered (relies_onPublished text ?_)
        intro w hw
        rcases j.services sid v hv w hw with hnull | ⟨c, hc, hsent⟩
        · rw [Listens, hnull, rt.channels_null] at hlisten
          exact absurd rfl hlisten.2
        · have grown := facts_grow h
          exact ⟨c, hknown.2 sid c (grown.2 sid c ⟨v, hv, hc⟩), hknown.1 w c (grown.1 w c hsent)⟩
      · cases hp'
  | disconnected sid =>
      simp only [program] at hp'
      split at hp'
      · split_ifs at hp'
        cases hp'
        exact relies_entered (relies_subscriberEnds sid _ _)
      · cases hp'

theorem obligations : (contract rt).Obligations ProperEntry Justified where
  grow := facts_grow
  enter := fun j hl h henter => entitled j hl h henter
  keep := step_justified
  answer := fun j law h => hears_sound j law h

theorem justified_boot : Justified (boot rt) :=
  ⟨by simp [boot, initial, World.start, Hash.empty], by simp [boot, initial, World.start],
    by simp [boot, initial]⟩

/-- Which services are there for which channels at the end of the run, and who
had sent what before a moment of it. -/
def factsBefore (s : State (gateway rt)) (before : List (Obs (gateway rt))) : Facts :=
  ⟨HasSent before, (facts s).serves⟩

/-- What a request has returned holds messages of its own channel only. -/
theorem returned_own {ls : List (Label (gateway rt))} (h : exec (boot rt) ls = some s)
    (hls : ∀ l ∈ ls, ProperEntry l) {t : Tid} {c : String} {results : List Result}
    (hr : HasReturned s t c results) : ∀ result ∈ results, Own c result := by
  have kept := Contract.exec_kept obligations justified_boot h hls
  intro result hmem
  cases result with
  | error m => trivial
  | device v =>
      have hv : some v ∈ (results.filterMap message?).map some :=
        List.mem_map_of_mem (List.mem_filterMap.mpr ⟨_, hmem, rfl⟩)
      rw [hr.messages h] at hv
      obtain ⟨d, hd, hparse⟩ := List.mem_map.mp hv
      obtain ⟨x, hx, rfl⟩ := List.mem_map.mp hd
      have hgot := got_of_delivered (exec_recorded h) hx
      obtain ⟨c', command', body', p', hthread, hkey⟩ := receiver_request h hx
      obtain ⟨command, body, p, ht, -⟩ := hr
      rw [ht] at hthread
      cases hthread
      rw [hkey] at hgot
      obtain ⟨message, hmessage, hsn⟩ := kept.heard t _ hgot x.data rfl c rfl
      rw [hparse] at hmessage
      cases hmessage
      exact hsn

/-- Every frame goes where it may go by what was sent before it. The commands of a
request return messages of its own channel only, and these are what an answer 200
shows. -/
theorem no_misdirection {ls : List (Label (gateway rt))} (h : exec (boot rt) ls = some s)
    (hls : ∀ l ∈ ls, ProperEntry l) :
    (∀ before t w doc r (after : List (Obs (gateway rt))),
      s.log = before ++ .called t (.wsSend (some w) doc) r :: after →
      ∃ kind p, s.threads[t]? = some ⟨kind, p⟩ ∧ FrameOk rt (factsBefore s before) kind w doc) ∧
    (∀ t c command body p, s.threads[t]? = some ⟨.post c command body, p⟩ →
      ∃ results, HasReturned s t c results ∧ (∀ result ∈ results, Own c result) ∧
        ∀ a, outcome s t = some (.answered a) → a.code = 200 → Shows a.body results) := by
  constructor
  · intro before t w doc r after hlog
    obtain ⟨s₁, kind, p, hlog₁, hle, ht, hok⟩ :=
      Contract.call_allowed obligations justified_boot h hls hlog
    have hle' : facts s₁ ≤ factsBefore s before := by
      refine ⟨fun w c hs => ?_, hle.2⟩
      rw [← hlog₁]
      exact hs
    exact ⟨kind, p, ht, FrameOk.mono hle' hok⟩
  · intro t c command body p ht
    obtain ⟨results, hreturned, hshows⟩ := exec_returned h ht
    exact ⟨results, hreturned, returned_own h hls hreturned,
      fun a hout hok => (hshows a hout hok).2⟩

end Runs

theorem answered_proper : ∀ l ∈ answered, ProperEntry l := by
  have proper : ∀ text, text = "reg" ∨ text = "reply" → Proper reader text := by
    rintro text (rfl | rfl)
    · exact ⟨_, rfl, .inr ⟨"A", rfl⟩⟩
    · exact ⟨_, rfl, .inr ⟨"A", rfl⟩⟩
  intro l hl
  simp only [answered, registration, turns, List.mem_append, List.mem_cons,
    List.mem_replicate] at hl
  rcases hl with (((rfl | hl) | rfl | hl) | rfl | hl) | rfl | hl
  all_goals first | trivial | exact proper _ (by simp) | (rw [hl.2]; trivial)

/-- The command of the request on `A` goes to the socket that has registered as
`A`, and the request returns a message of `A`. -/
theorem no_misdirection_reader : HasSent ((after answered).log.take 28) 0 "A" ∧
    ∃ v, outcome (after answered) 2 = some (.answered ⟨200, .single (.bool true) (.device v)⟩) ∧
      Own "A" (.device v) := by
  have run : exec (boot reader) answered = some (after answered) := rfl
  obtain ⟨frames, answers⟩ := no_misdirection run answered_proper
  constructor
  · obtain ⟨kind, p, ht, hframe⟩ := frames ((after answered).log.take 28) 2 0 _ _
      ((after answered).log.drop 29) rfl
    cases ht
    exact hframe
  · obtain ⟨results, -, hown, hshows⟩ := answers 2 "A" "user_list" "" _ rfl
    refine ⟨_, rfl, ?_⟩
    cases hshows _ rfl rfl
    exact hown _ List.mem_cons_self

end EvoGw.RouteIsolation
