import OxiGate.Http

/-! Bodies as they are polled. A body adapter maps the answer of the body inside it
to its own answer and updates its state. -/
namespace OxiGate
namespace BodyLimit

open Http

inductive Frame
  | data (bytes : List UInt8)
  | trailers (headers : HeaderMap)
  deriving DecidableEq, Repr

def Frame.dataRef : Frame → Option (List UInt8)
  | .data bytes => some bytes
  | .trailers _ => none

inductive BodyLimitError
  | tooLarge | idleTimeout | other (e : String)
  deriving DecidableEq, Repr

inductive Poll (ε : Type)
  | frame (f : Frame)
  | failed (e : ε)
  | ended
  | pending
  deriving DecidableEq, Repr

/-- `MapErrBody::poll_frame`. -/
def mapErr : Poll String → Poll BodyLimitError
  | .frame f => .frame f
  | .failed e => .failed (.other e)
  | .ended => .ended
  | .pending => .pending

structure LimitedBody where
  max : ℕ
  seen : ℕ
  deriving DecidableEq, Repr

def LimitedBody.new (max : ℕ) : LimitedBody := ⟨max,0⟩

def BodyLimitError.message : BodyLimitError → String
  | .tooLarge => "body too large"
  | .idleTimeout => "body idle timeout"
  | .other e => e

def LimitedBody.pollFrame (b : LimitedBody) : Poll BodyLimitError → Poll BodyLimitError × LimitedBody
  | .frame f =>
    match f.dataRef with
    | some data =>
      let seen := b.seen+data.length
      if b.max < seen then (.failed .tooLarge,{ b with seen := seen })
      else (.frame f,{ b with seen := seen })
    | none => (.frame f,b)
  | .failed e => (.failed (.other e.message),b)
  | .ended => (.ended,b)
  | .pending => (.pending,b)

/-- Fails if no body frame arrives within `idle`. -/
structure IdleBody where
  idle : ℕ
  delay : ℕ
  deriving DecidableEq, Repr

def IdleBody.new (idle now : ℕ) : IdleBody :=
  let idle := max idle 50000000
  ⟨idle,now+idle⟩

def IdleBody.pollFrame (b : IdleBody) (now : ℕ) : Poll BodyLimitError → Poll BodyLimitError × IdleBody
  | .frame f => (.frame f,{ b with delay := now+b.idle })
  | .failed e => (.failed e,b)
  | .ended => (.ended,b)
  | .pending => if b.delay ≤ now then (.failed .idleTimeout,b) else (.pending,b)

/-- What a body received from the network answers: at the time of each poll a frame
or, still waiting, nothing, and at last its end or an error. -/
structure Incoming where
  polls : List (ℕ × Option Frame)
  final : Except String Unit

def frameOr : Option Frame → Poll String
  | some f => .frame f
  | none => .pending

def Incoming.data (body : Incoming) : List UInt8 :=
  body.polls.flatMap fun p => (p.2.bind Frame.dataRef).getD []

/-- `collect`: poll until the end or the first error, and concatenate the data. -/
def collect (final : Except String Unit) :
    List (ℕ × Option Frame) → LimitedBody → IdleBody → List UInt8 → Except BodyLimitError (List UInt8)
  | [], limited, idle, acc =>
    let inner := match final with | .ok () => Poll.ended | .error e => .failed e
    match (idle.pollFrame 0 (limited.pollFrame (mapErr inner)).1).1 with
    | .failed e => .error e
    | _ => .ok acc
  | (now,frame)::polls, limited, idle, acc =>
    let (inner,limited) := limited.pollFrame (mapErr (frameOr frame))
    match idle.pollFrame now inner with
    | (.frame f,idle) => collect final polls limited idle (acc++f.dataRef.getD [])
    | (.failed e,_) => .error e
    | (.ended,_) => .ok acc
    | (.pending,idle) => collect final polls limited idle acc

/-- Size limit and idle timeout between frames, then collect. -/
def collectLimited (body : Incoming) (max idle now : ℕ) : Except BodyLimitError (List UInt8) :=
  collect body.final body.polls (LimitedBody.new max) (IdleBody.new idle now) []

theorem collect_ok {final : Except String Unit} {polls : List (ℕ × Option Frame)}
    {limited : LimitedBody} {idle : IdleBody} {acc bytes : List UInt8}
    (h : collect final polls limited idle acc = .ok bytes) :
    bytes = acc++polls.flatMap fun p => (p.2.bind Frame.dataRef).getD [] := by
  induction polls generalizing limited idle acc with
  | nil =>
    simp only [collect] at h
    split at h
    · cases h
    · cases h
      simp
  | cons poll polls ih =>
    rcases poll with ⟨now,frame⟩
    cases frame with
    | none =>
      simp only [collect,frameOr,mapErr,LimitedBody.pollFrame,IdleBody.pollFrame] at h
      split_ifs at h
      simpa using ih h
    | some f =>
      cases f with
      | data d =>
        simp only [collect,frameOr,mapErr,LimitedBody.pollFrame,Frame.dataRef] at h
        split_ifs at h
        · cases h
        · simpa [Frame.dataRef,List.append_assoc] using ih h
      | trailers hs =>
        simp only [collect,frameOr,mapErr,LimitedBody.pollFrame,Frame.dataRef] at h
        simpa [Frame.dataRef] using ih h

theorem collectLimited_ok {body : Incoming} {max idle now : ℕ} {bytes : List UInt8}
    (h : collectLimited body max idle now = .ok bytes) : bytes = body.data := by
  simpa [Incoming.data] using collect_ok h

end BodyLimit
end OxiGate
