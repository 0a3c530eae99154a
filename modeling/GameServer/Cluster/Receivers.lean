import GameServer.Library.Receiving
import GameServer.Registry.Interleaving

/-! # The loops that receive

The registry and the heartbeat channel each take messages in one loop. Both take a message
apart inside the loop, frame by frame and with an `unwrap` at every step, so the first message
that is not what it should be ends the loop. Only what a message is about is decoded in a task
of its own, where a panic harms nobody else.
-/
namespace GameServer.Cluster
open Common Library Registry

abbrev Frame := ByteArray
abbrev ZmqMessage := List Frame

/-- What the loops leave to the socket library and to the JSON library: an identity from a
frame, a text from a message of one frame, and a `Message` from a text. -/
structure Decoders where
  peerIdentity : Frame → Option PeerIdentity
  text : ZmqMessage → Option String
  message : String → Option Message

inductive ReceivePanic
  | frameMissing
  | notPeerIdentity
  | notText
  | notMessage
  | sendFailed
deriving DecidableEq

section
variable (D : Decoders)

def Decoders.Readable (m : ZmqMessage) : Prop :=
  ∃ head body receive, m[0]? = some head ∧ (D.peerIdentity head).isSome ∧ m[2]? = some body ∧
    String.fromUTF8? body = some receive ∧ (D.message receive).isSome

def Decoders.ReadableText (m : ZmqMessage) : Prop :=
  ∃ receive, D.text m = some receive ∧ (D.message receive).isSome

/-! ## The registry -/

def repReceive (message : ZmqMessage) : Except ReceivePanic (PeerIdentity × Message) :=
  match message[0]? with
  | none => .error .frameMissing
  | some head =>
    match D.peerIdentity head with
    | none => .error .notPeerIdentity
    | some peerId =>
      match message[2]? with
      | none => .error .frameMissing
      | some body =>
        match String.fromUTF8? body with
        | none => .error .notText
        | some receive =>
          match D.message receive with
          | none => .error .notMessage
          | some receiveMsg => .ok (peerId,receiveMsg)

structure Service where
  center : Center
  tasks : List RegisterTask
  monitoring : Bool

inductive ServiceAct
  | run (k : ℕ) (now : ℤ)
  | pass (clock : String → ℤ)

namespace Service

/-- The next locked section of a `handle_msg_task`; only a `Register` has several. -/
def locked (now : ℤ) (c : Center) (t : RegisterTask) : Center × Option RegisterPc :=
  match t.msg.operation with
  | .Register => t.locked now c
  | _ => ((handleMsgTask now t.msg t.peerId c).state,none)

def deliver (running : Bool) (s : Service) (center : Center) : Center :=
  if running then center else { center with sent := s.center.sent }

/-- A send to a loop that is gone panics, so the monitor does not survive an election then. -/
def act (running : Bool) (s : Service) : ServiceAct → Service
  | .run k now =>
    match s.tasks[k]? with
    | none => s
    | some t =>
      let (center,pc) := locked now s.center t
      { s with
        center := s.deliver running center
        tasks := match pc with
          | none => s.tasks.eraseIdx k
          | some pc => s.tasks.set k { t with pc := pc } }
  | .pass clock =>
    if s.monitoring then
      let passed := heartbeatMonitor clock s.center
      { s with
        center := s.deliver running passed.state
        monitoring := passed.panic.isNone && (running || passed.state.sent.length == s.center.sent.length) }
    else s

end Service

def repRecvAndSendThread (s : Service) (message : ZmqMessage) : Outcome ReceivePanic Service :=
  match repReceive D message with
  | .error e => Outcome.fail s e
  | .ok (peerId,receiveMsg) => Outcome.ok
      { s with tasks := s.tasks ++ [{ msg := receiveMsg, peerId := peerId, pc := .checkRegistered }] }

/-! ## The heartbeat channel -/

structure Heartbeats where
  lastTime : HashMap String ℤ
  pongs : List Message

structure Beat where
  zmqMsg : ZmqMessage
  timestamp : ℤ
  answered : Bool

def heartbeatUpdate (s : Heartbeats) (b : Beat) : Outcome ReceivePanic Heartbeats :=
  match D.text b.zmqMsg with
  | none => Outcome.fail s .notText
  | some receive =>
    match D.message receive with
    | none => Outcome.fail s .notMessage
    | some pingMsg =>
      let s := { s with lastTime := s.lastTime.insert pingMsg.clientId b.timestamp }
      if b.answered then Outcome.ok { s with pongs := s.pongs ++ [Message.pong pingMsg.clientId] }
      else Outcome.fail s .sendFailed

def Heartbeats.pass (heartbeat : ℤ) (s : Heartbeats) (clock : String → ℤ) : Heartbeats :=
  let delList := (s.lastTime.entries.filter (fun e => decide (clock e.1 - e.2 > heartbeat))).map Sigma.fst
  { s with lastTime := s.lastTime.eraseAll delList }

end

/-! ## What ends a loop -/

section
variable {D : Decoders}

theorem repReceive_isOk_iff (m : ZmqMessage) : (repReceive D m).isOk = true ↔ D.Readable m := by
  unfold repReceive Decoders.Readable
  cases hhead : m[0]? with
  | none => simp [Except.isOk, Except.toBool]
  | some head =>
    cases hpeer : D.peerIdentity head with
    | none => simp [hpeer, Except.isOk, Except.toBool]
    | some peerId =>
      cases hbody : m[2]? with
      | none => simp [hpeer, Except.isOk, Except.toBool]
      | some body =>
        cases htext : String.fromUTF8? body with
        | none => simp [hpeer, htext, Except.isOk, Except.toBool]
        | some receive =>
          cases hmsg : D.message receive <;> simp [hpeer, htext, hmsg, Except.isOk, Except.toBool]

instance (m : ZmqMessage) : Decidable (D.Readable m) := decidable_of_iff _ (repReceive_isOk_iff m)

instance (m : ZmqMessage) : Decidable (D.ReadableText m) :=
  decidable_of_iff (((D.text m).bind D.message).isSome = true) (by
    unfold Decoders.ReadableText
    cases D.text m <;> simp)

/-- The loop of the registry is running, and the tables are as if nothing unreadable had arrived
while tasks and the monitor were at work. -/
def Service.Undisturbed (D : Decoders) (s : Service) (events : List (ZmqMessage ⊕ ServiceAct)) : Prop :=
  Receiver.Undisturbed (repRecvAndSendThread D) Service.act (fun s => s.center.context)
    (fun m => decide (D.Readable m)) { running := true, shared := s } events

def Heartbeats.Undisturbed (D : Decoders) (heartbeat : ℤ) (s : Heartbeats)
    (events : List (Beat ⊕ (String → ℤ))) : Prop :=
  Receiver.Undisturbed (heartbeatUpdate D) (fun _ => Heartbeats.pass heartbeat) Heartbeats.lastTime
    (fun b => decide (D.ReadableText b.zmqMsg)) { running := true, shared := s } events

theorem repRecvAndSendThread_panic (s : Service) (m : ZmqMessage) :
    (repRecvAndSendThread D s m).panic = none ↔ D.Readable m := by
  rw [← repReceive_isOk_iff]
  unfold repRecvAndSendThread
  cases repReceive D m <;> simp [Except.isOk, Except.toBool]

theorem heartbeatUpdate_panic (s : Heartbeats) (b : Beat) :
    (heartbeatUpdate D s b).panic = none ↔ D.ReadableText b.zmqMsg ∧ b.answered = true := by
  unfold heartbeatUpdate Decoders.ReadableText
  cases htext : D.text b.zmqMsg with
  | none => simp
  | some receive =>
    cases hmsg : D.message receive with
    | none => simp [hmsg]
    | some pingMsg => cases hb : b.answered <;> simp [hmsg]

/-- An unreadable message is the last one the loop takes: what any peer sends later is lost. -/
theorem lost_after_unreadable {m : ZmqMessage} (hm : ¬ D.Readable m) (r : Receiver Service)
    (events : List (ZmqMessage ⊕ ServiceAct)) :
    r.after (repRecvAndSendThread D) Service.act (Sum.inl m :: events) =
      r.after (repRecvAndSendThread D) Service.act
        (Sum.inl m :: Receiver.keeping (fun _ => false) events) :=
  Receiver.after_of_bad repRecvAndSendThread_panic hm r events

end

/-- What a message is about is decoded in its task, and a task that panics there has not
touched the tables. -/
theorem handleMsgTask_of_panic {now : ℤ} {msg : Message} {peerId : PeerIdentity} {c : Center}
    (h : (handleMsgTask now msg peerId c).panic ≠ none) : (handleMsgTask now msg peerId c).state = c := by
  unfold handleMsgTask at h ⊢
  split
  · rename_i hop
    rw [hop] at h
    dsimp only at h
    unfold handleRegister at h ⊢
    by_cases hin : (c.context.nodeList.lookup msg.clientId).isSome
    · simp [hin] at h
    · cases hc : msg.content with
      | none => simp [hin, hc] at h
      | some content =>
        cases hn : content.asNodeInfo with
        | none => simp [hin, hn]
        | some nodeInfo =>
          cases ht : nodeInfo.nodeType <;> cases hm : c.context.masterNode <;>
            simp [hin, hc, hn, ht, hm] at h
  · rename_i hop
    rw [hop] at h
    dsimp only at h
    unfold handleReport at h ⊢
    cases hc : msg.content with
    | none => rfl
    | some content =>
      cases hs : content.asStateInfo with
      | none => simp [hs]
      | some stateInfo => simp [hc, hs] at h
  · rename_i hop
    rw [hop] at h
    dsimp only at h
    unfold handleConvertToMasterResp at h ⊢
    cases hc : msg.content with
    | none => rfl
    | some content =>
      cases hn : content.asNodeInfo with
      | none => simp [hn]
      | some nodeInfo => simp [hc, hn] at h
  · rfl

theorem Service.undisturbed_iff {D : Decoders} {s : Service} {events : List (ZmqMessage ⊕ ServiceAct)} :
    s.Undisturbed D events ↔ ∀ m, Sum.inl m ∈ events → D.Readable m :=
  Receiver.undisturbed_iff repRecvAndSendThread_panic (fun _ hm => decide_eq_true hm) _ rfl events

theorem Heartbeats.undisturbed_iff {D : Decoders} {heartbeat : ℤ} {s : Heartbeats}
    {events : List (Beat ⊕ (String → ℤ))} : s.Undisturbed D heartbeat events ↔
      ∀ b, Sum.inl b ∈ events → D.ReadableText b.zmqMsg ∧ b.answered = true :=
  Receiver.undisturbed_iff heartbeatUpdate_panic (fun _ hb => decide_eq_true hb.1) _ rfl events

/-- The two loops keep running, with the tables they would have without what is unreadable,
exactly if nothing unreadable arrives and every heartbeat can be answered. -/
theorem loops_undisturbed_iff (D : Decoders) :
    (∀ (s : Service) (events : List (ZmqMessage ⊕ ServiceAct)),
      s.Undisturbed D events ↔ ∀ m, Sum.inl m ∈ events → D.Readable m) ∧
    ∀ (heartbeat : ℤ) (s : Heartbeats) (events : List (Beat ⊕ (String → ℤ))),
      s.Undisturbed D heartbeat events ↔
        ∀ b, Sum.inl b ∈ events → D.ReadableText b.zmqMsg ∧ b.answered = true :=
  ⟨fun _ _ => Service.undisturbed_iff,fun _ _ _ => Heartbeats.undisturbed_iff⟩

def Decoders.noJson : Decoders where
  peerIdentity := String.fromUTF8?
  text
    | [frame] => String.fromUTF8? frame
    | _ => none
  message _ := none

/-- A message without a third frame ends the registry's loop, and the text `x` ends that of the
heartbeat channel. -/
theorem disturbed_by_unreadable :
    ¬ Service.Undisturbed .noJson { center := Center.start, tasks := [], monitoring := true }
      [Sum.inl ["p".toUTF8,ByteArray.empty]] ∧
    ¬ Heartbeats.Undisturbed .noJson 3000 { lastTime := ∅, pongs := [] }
      [Sum.inl { zmqMsg := ["x".toUTF8], timestamp := 0, answered := true }] := by
  constructor
  · intro h
    obtain ⟨_,_,_,_,_,hbody,_⟩ := Service.undisturbed_iff.mp h _ List.mem_cons_self
    cases hbody
  · intro h
    obtain ⟨⟨_,_,hmsg⟩,_⟩ := Heartbeats.undisturbed_iff.mp h _ List.mem_cons_self
    cases hmsg

end GameServer.Cluster
