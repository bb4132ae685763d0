import OxiGate.Connection
import OxiGate.Runs
import OxiGate.Validator

/-! The reload task beside the dispatcher. A reload reads, checks and builds before it writes the
shared cells one after the other; connections are dispatched at any point in between. -/
namespace OxiGate
namespace HotReload

open RustText Http Net Security RateLimit Proxy Connection Runs

structure FileConfig (F : Type) extends Config F where
  upstreamHttp2 : Bool
  poolMaxIdlePerHost : ℕ

structure ClientOptions where
  connectTimeout : ℕ
  poolMaxIdlePerHost : ℕ
  http2 : Bool
  deriving DecidableEq

/-- Clients, routers, limiters and semaphores are shared objects; each is known by what it was
built from and by the generation of its runtime. -/
structure HttpClient where
  options : ClientOptions
  generation : ℕ
  deriving DecidableEq

def buildClient (generation : ℕ) (opts : ClientOptions) : HttpClient := ⟨opts,generation⟩

structure Runtime (F A : Type) where
  config : FileConfig F
  router : ℕ × Router
  client : HttpClient
  rateLimiter : Option ℕ
  tls : Option A
  requestLimit : Option ℕ
  proxyTrusted : Option Acl

variable {F A : Type}

def loadAcceptor (loadTls : TlsConfig → Except String A) : Option TlsConfig → Except String (Option A)
  | some t => (loadTls t).map some
  | none => .ok none

def Runtime.fromConfig (generation : ℕ) (loadTls : TlsConfig → Except String A) (config : FileConfig F) :
    Except RuntimeError (Runtime F A) := do
  let client := buildClient generation
    ⟨seconds config.timeouts.connectSecs,config.poolMaxIdlePerHost,config.upstreamHttp2⟩
  let rateLimiter := config.rateLimit.map fun _ => generation
  let tls ← (loadAcceptor loadTls config.tls).mapError .tls
  let requestLimit := if 0 < config.maxConnections then some generation else none
  let proxyTrusted ← (trustedAcl config.toConfig).mapError .cidr
  let router := (generation,Router.fromConfig config.toConfig)
  pure ⟨config,router,client,rateLimiter,tls,requestLimit,proxyTrusted⟩

/-- What the dispatcher clones under one read lock. -/
structure Snapshot (F A : Type) where
  router : ℕ × Router
  client : HttpClient
  rateLimiter : Option ℕ
  tlsAcc : Option A
  requestLimit : Option ℕ
  proxyTrusted : Option Acl
  cfg : FileConfig F

def Runtime.snapshot (rt : Runtime F A) : Snapshot F A :=
  ⟨rt.router,rt.client,rt.rateLimiter,rt.tls,rt.requestLimit,rt.proxyTrusted,rt.config⟩

structure ConnContext (A : Type) extends ProxyContext where
  routerGeneration : ℕ
  client : HttpClient
  tlsAcc : Option A
  proxyTrusted : Option Acl

/-- The context that `handle_one_connection` makes from its arguments. -/
def Snapshot.context (snap : Snapshot F A) : ConnContext A where
  router := snap.router.2
  retries := snap.cfg.retries
  requestTimeout := seconds snap.cfg.timeouts.requestSecs
  sticky := snap.cfg.sticky
  headers := snap.cfg.headers
  accessLog := snap.cfg.accessLog
  rateLimiter := snap.rateLimiter
  maxBodyBytes := snap.cfg.maxBodyBytes
  retryIdempotentOnly := snap.cfg.retryIdempotentOnly
  forceRetryWithBody := snap.cfg.forceRetryWithBody
  acl := snap.cfg.acl.bind fun a => (Acl.fromConfig a.allow a.deny).toOption
  securityHeaders := snap.cfg.securityHeaders
  clientIsTls := snap.tlsAcc.isSome
  requestLimit := snap.requestLimit
  idleTimeout := seconds (max snap.cfg.timeouts.idleSecs 1)
  routerGeneration := snap.router.1
  client := snap.client
  tlsAcc := snap.tlsAcc
  proxyTrusted := snap.proxyTrusted

/-- What a load of the configuration finds outside: the file, what the YAML crate makes of a text,
and which other files exist. -/
structure Files (F : Type) where
  readToString : Except String String
  fromStr : String → Except String (FileConfig F)
  fileExists : String → Bool

section

variable [F64 F] [LE F] [DecidableLE F] [HttpCrate]

def fromFile (files : Files F) : Except String (FileConfig F) := do
  let content ← files.readToString
  let config ← files.fromStr content
  Validator.validate files.fileExists config.toConfig
  pure config

theorem fromFile_ok {files : Files F} {content : String} {config : FileConfig F}
    (hread : files.readToString = .ok content) (hparse : files.fromStr content = .ok config)
    (hvalid : Validator.validate files.fileExists config.toConfig = .ok ()) : fromFile files = .ok config := by
  simp only [fromFile,hread,hparse,hvalid,bind,Except.bind]
  rfl

variable (F) in
/-- A configuration that was read, parsed and validated. -/
structure Validated where
  files : Files F
  config : FileConfig F
  accepted : fromFile files = .ok config

theorem Validated.valid (v : Validated F) : Validator.validate v.files.fileExists v.config.toConfig = .ok () := by
  obtain ⟨content,-,h⟩ := ok_of_bind v.accepted
  obtain ⟨config,-,h⟩ := ok_of_bind h
  obtain ⟨⟨⟩,hvalid,h⟩ := ok_of_bind h
  rw [← Except.ok.inj h]
  exact hvalid

variable (F A) in
structure Loaded extends Validated F where
  generation : ℕ
  loadTls : TlsConfig → Except String A
  runtime : Runtime F A
  built : Runtime.fromConfig generation loadTls config = .ok runtime

/-- The inputs of the health task; the balancers it checks are those of the runtime. -/
structure HealthRuntime where
  client : HttpClient
  config : HealthCheckConfig

/-- The cells that the tasks share. -/
structure Cells (F A : Type) where
  adminToken : Option String
  sharedRl : Option ℕ
  healthRt : HealthRuntime
  appState : FileConfig F
  runtime : Runtime F A

inductive Write
  | adminToken
  | sharedRl
  | healthRt
  | appState
  | runtime
  deriving DecidableEq

def Write.apply (new : Loaded F A) (cells : Cells F A) : Write → Cells F A
  | .adminToken => { cells with adminToken := new.runtime.config.adminToken }
  | .sharedRl => { cells with sharedRl := new.runtime.rateLimiter }
  -- both fields are set under one write lock
  | .healthRt => { cells with healthRt := ⟨new.runtime.client,new.runtime.config.healthCheck⟩ }
  | .appState => { cells with appState := new.config }
  | .runtime => { cells with runtime := new.runtime }

/-- The writes of a reload, in order. -/
def writes : List Write := [.adminToken,.sharedRl,.healthRt,.appState,.runtime]

variable (F A) in
inductive Phase
  | idle
  | loading
  | building (v : Validated F)
  | writing (left : List Write) (new : Loaded F A)

variable (F A) in
structure State where
  cells : Cells F A
  phase : Phase F A
  /-- A signal has come that the task has not received. -/
  signalled : Bool
  generation : ℕ
  loaded : List (Loaded F A)
  connections : List (Snapshot F A)

inductive Event (F A : Type)
  | sighup
  | receive
  | load (files : Files F)
  | build (loadTls : TlsConfig → Except String A)
  | write
  | dispatch

def startUp (first : Loaded F A) : State F A where
  cells :=
    { adminToken := first.runtime.config.adminToken
      sharedRl := first.runtime.rateLimiter
      healthRt := ⟨first.runtime.client,first.runtime.config.healthCheck⟩
      appState := first.config
      runtime := first.runtime }
  phase := .idle
  signalled := false
  generation := first.generation+1
  loaded := [first]
  connections := []

def afterWrite (left : List Write) (new : Loaded F A) : Phase F A :=
  if left.isEmpty then .idle else .writing left new

def step (s : State F A) : Event F A → Option (State F A)
  | .sighup => some { s with signalled := true }
  | .receive =>
    match s.phase with
    | .idle => if s.signalled then some { s with phase := .loading, signalled := false } else none
    | _ => none
  | .load files =>
    match s.phase with
    | .loading =>
      match h : fromFile files with
      | .ok config => some { s with phase := .building ⟨files,config,h⟩ }
      | .error _ => some { s with phase := .idle }
    | _ => none
  | .build loadTls =>
    match s.phase with
    | .building v =>
      match h : Runtime.fromConfig s.generation loadTls v.config with
      | .ok runtime =>
        let new : Loaded F A := ⟨v,s.generation,loadTls,runtime,h⟩
        some { s with
          phase := .writing writes new, generation := s.generation+1, loaded := s.loaded++[new] }
      | .error _ => some { s with phase := .idle, generation := s.generation+1 }
    | _ => none
  | .write =>
    match s.phase with
    | .writing (w::left) new =>
      some { s with cells := w.apply new s.cells, phase := afterWrite left new }
    | _ => none
  | .dispatch => some { s with connections := s.connections++[s.cells.runtime.snapshot] }

inductive Stepped (s : State F A) : Event F A → State F A → Prop
  | sighup : Stepped s .sighup { s with signalled := true }
  | receive (hphase : s.phase = .idle) : Stepped s .receive { s with phase := .loading, signalled := false }
  | accepted {files : Files F} (hphase : s.phase = .loading) (v : Validated F) :
      Stepped s (.load files) { s with phase := .building v }
  | refused {files : Files F} (hphase : s.phase = .loading) : Stepped s (.load files) { s with phase := .idle }
  | built {loadTls : TlsConfig → Except String A} {v : Validated F} (hphase : s.phase = .building v)
      (new : Loaded F A) : Stepped s (.build loadTls)
        { s with phase := .writing writes new, generation := s.generation+1, loaded := s.loaded++[new] }
  | failed {loadTls : TlsConfig → Except String A} {v : Validated F} (hphase : s.phase = .building v) :
      Stepped s (.build loadTls) { s with phase := .idle, generation := s.generation+1 }
  | write {w : Write} {left : List Write} {new : Loaded F A} (hphase : s.phase = .writing (w::left) new) :
      Stepped s .write { s with cells := w.apply new s.cells, phase := afterWrite left new }
  | dispatch : Stepped s .dispatch { s with connections := s.connections++[s.cells.runtime.snapshot] }

theorem stepped {s s' : State F A} {e : Event F A} (h : step s e = some s') : Stepped s e s' := by
  cases e with
  | sighup =>
    cases h
    exact .sighup
  | receive =>
    simp only [step] at h
    split at h
    · rename_i hphase
      split at h
      · cases h
        exact .receive hphase
      · cases h
    · cases h
  | load files =>
    simp only [step] at h
    split at h
    · rename_i hphase
      split at h
      · cases h
        exact .accepted hphase _
      · cases h
        exact .refused hphase
    · cases h
  | build loadTls =>
    simp only [step] at h
    split at h
    · rename_i v hphase
      split at h
      · cases h
        exact .built hphase _
      · cases h
        exact .failed hphase
    · cases h
  | write =>
    simp only [step] at h
    split at h
    · rename_i w left new hphase
      cases h
      exact .write hphase
    · cases h
  | dispatch =>
    cases h
    exact .dispatch

def Phase.due : Phase F A → List Write
  | .writing left _ => left
  | _ => []

/-- The last configuration loaded, whose reload will have written all cells when it is over. -/
structure Latest (s : State F A) (l : Loaded F A) : Prop where
  last : s.loaded.getLast? = some l
  writing : ∀ left new, s.phase = .writing left new → new = l
  cells : s.phase.due.foldl (Write.apply l) s.cells = (startUp l).cells

structure Sound (s : State F A) : Prop where
  latest : ∃ l, Latest s l
  runtime : ∃ l ∈ s.loaded, s.cells.runtime = l.runtime
  connections : ∀ c ∈ s.connections, ∃ l ∈ s.loaded, c = l.runtime.snapshot

theorem foldl_writes (new : Loaded F A) (cells : Cells F A) :
    writes.foldl (Write.apply new) cells = (startUp new).cells := rfl

theorem sound_startUp (first : Loaded F A) : Sound (startUp first) where
  latest := ⟨first,rfl,by rintro left new ⟨⟩,rfl⟩
  runtime := ⟨first,List.mem_singleton_self _,rfl⟩
  connections := by rintro c ⟨⟩

@[simp] theorem due_afterWrite (left : List Write) (new : Loaded F A) : (afterWrite left new).due = left := by
  cases left <;> rfl

theorem afterWrite_writing {left left' : List Write} {new new' : Loaded F A}
    (h : afterWrite left new = .writing left' new') : new' = new := by
  cases left with
  | nil => cases h
  | cons w left =>
    cases h
    rfl

theorem Latest.quiet {s s' : State F A} {l : Loaded F A} (hs : Latest s l) (hloaded : s'.loaded = s.loaded)
    (hcells : s'.cells = s.cells) (hdue : s.phase.due = []) (hdue' : s'.phase.due = [])
    (hwriting : ∀ left new, s'.phase ≠ .writing left new) : Latest s' l := by
  have hwritten := hs.cells
  rw [hdue] at hwritten
  refine ⟨by rw [hloaded,hs.last],fun left new h => absurd h (hwriting left new),?_⟩
  rw [hdue',hcells]
  exact hwritten

theorem Latest.step {s s' : State F A} {e : Event F A} {l : Loaded F A} (hs : Latest s l)
    (h : step s e = some s') : ∃ l', Latest s' l' := by
  cases stepped h with
  | sighup => exact ⟨l,hs.last,hs.writing,hs.cells⟩
  | receive hphase => exact ⟨l,hs.quiet rfl rfl (by rw [hphase]; rfl) rfl (by rintro left new ⟨⟩)⟩
  | accepted hphase v => exact ⟨l,hs.quiet rfl rfl (by rw [hphase]; rfl) rfl (by rintro left new ⟨⟩)⟩
  | refused hphase => exact ⟨l,hs.quiet rfl rfl (by rw [hphase]; rfl) rfl (by rintro left new ⟨⟩)⟩
  | built hphase new =>
    refine ⟨new,List.getLast?_concat,?_,foldl_writes new s.cells⟩
    rintro left new' ⟨⟩
    rfl
  | failed hphase => exact ⟨l,hs.quiet rfl rfl (by rw [hphase]; rfl) rfl (by rintro left new ⟨⟩)⟩
  | @write w left new hphase =>
    obtain rfl := hs.writing _ _ hphase
    refine ⟨new,hs.last,fun left' new' hnext => afterWrite_writing hnext,?_⟩
    have hwritten := hs.cells
    rw [hphase] at hwritten
    rw [due_afterWrite]
    exact hwritten
  | dispatch => exact ⟨l,hs.last,hs.writing,hs.cells⟩

theorem loaded_grows {s s' : State F A} {e : Event F A} (h : step s e = some s') : s.loaded ⊆ s'.loaded := by
  cases stepped h with
  | built hphase new => exact List.subset_append_left _ _
  | _ => exact List.Subset.refl _

/-- The runtime changes to that of the configuration being written, all at once. -/
theorem runtime_step {s s' : State F A} {e : Event F A} {l : Loaded F A} (hs : Latest s l)
    (h : step s e = some s') : s'.cells.runtime = s.cells.runtime ∨ s'.cells.runtime = l.runtime ∧ l ∈ s.loaded := by
  cases stepped h with
  | @write w left new hphase =>
    obtain rfl := hs.writing _ _ hphase
    cases w with
    | runtime => exact Or.inr ⟨rfl,List.mem_of_getLast? hs.last⟩
    | _ => exact Or.inl rfl
  | _ => exact Or.inl rfl

theorem Sound.step {s s' : State F A} {e : Event F A} (hs : Sound s) (h : step s e = some s') : Sound s' := by
  obtain ⟨l,hlatest⟩ := hs.latest
  have hgrows := loaded_grows h
  refine ⟨hlatest.step h,?_,?_⟩
  · rcases runtime_step hlatest h with hsame | ⟨hnew,hmem⟩
    · obtain ⟨l',hl',hruntime⟩ := hs.runtime
      exact ⟨l',hgrows hl',hsame.trans hruntime⟩
    · exact ⟨l,hgrows hmem,hnew⟩
  · have hkept : ∀ c ∈ s.connections, ∃ l ∈ s'.loaded, c = l.runtime.snapshot := by
      intro c hc
      obtain ⟨l',hl',hsnap⟩ := hs.connections c hc
      exact ⟨l',hgrows hl',hsnap⟩
    cases stepped h with
    | dispatch =>
      intro c hc
      rcases List.mem_append.mp hc with hc | hc
      · exact hkept c hc
      · obtain ⟨l',hl',hruntime⟩ := hs.runtime
        exact ⟨l',hl',by rw [List.mem_singleton.mp hc,hruntime]⟩
    | _ => exact hkept

def Unloaded (s s' : State F A) : Prop :=
  (s'.loaded = s.loaded ∧ s'.cells = s.cells ∧ s'.phase.due = []) ∨ s.loaded.length < s'.loaded.length

theorem Unloaded.step {s₀ s s' : State F A} {e : Event F A} (hs : Unloaded s₀ s) (h : step s e = some s') :
    Unloaded s₀ s' := by
  rcases hs with ⟨hloaded,hcells,hdue⟩ | hmore
  · cases stepped h with
    | sighup => exact Or.inl ⟨hloaded,hcells,hdue⟩
    | receive hphase => exact Or.inl ⟨hloaded,hcells,rfl⟩
    | accepted hphase v => exact Or.inl ⟨hloaded,hcells,rfl⟩
    | refused hphase => exact Or.inl ⟨hloaded,hcells,rfl⟩
    | built hphase new => exact Or.inr (by simp [hloaded])
    | failed hphase => exact Or.inl ⟨hloaded,hcells,rfl⟩
    | write hphase =>
      rw [hphase] at hdue
      cases hdue
    | dispatch => exact Or.inl ⟨hloaded,hcells,hdue⟩
  · cases stepped h with
    | built hphase new => exact Or.inr (by simp; omega)
    | _ => exact Or.inr hmore

/-- What loading the certificate came to, for the runtime without its acceptor. -/
def Loaded.tlsOutcome (l : Loaded F A) : Except String Unit :=
  (loadAcceptor l.loadTls l.config.tls).map fun _ => ()

def Loaded.client (l : Loaded F A) : HttpClient :=
  buildClient l.generation
    ⟨seconds l.config.timeouts.connectSecs,l.config.poolMaxIdlePerHost,l.config.upstreamHttp2⟩

/-- The context is that of one configuration, and refers to objects of one generation. -/
structure DerivedFrom (l : Loaded F A) (ctx : ConnContext A) : Prop where
  valid : Validator.validate l.files.fileExists l.config.toConfig = .ok ()
  context : ∃ rt, Connection.Runtime.fromConfig l.generation l.tlsOutcome l.config.toConfig = .ok rt ∧
    ctx.toProxyContext = proxyContext rt ∧ ctx.proxyTrusted = rt.proxyTrusted
  router : ctx.routerGeneration = l.generation
  client : ctx.client = l.client
  tls : loadAcceptor l.loadTls l.config.tls = .ok ctx.tlsAcc

/-- All cells are those of one configuration. -/
structure StemFrom (l : Loaded F A) (cells : Cells F A) : Prop where
  valid : Validator.validate l.files.fileExists l.config.toConfig = .ok ()
  adminToken : cells.adminToken = l.config.adminToken
  sharedRl : cells.sharedRl = l.config.rateLimit.map fun _ => l.generation
  healthRt : cells.healthRt = ⟨l.client,l.config.healthCheck⟩
  appState : cells.appState = l.config
  runtime : Runtime.fromConfig l.generation l.loadTls l.config = .ok cells.runtime

theorem Loaded.runtime_eq (l : Loaded F A) : ∃ tls trusted,
    loadAcceptor l.loadTls l.config.tls = .ok tls ∧ trustedAcl l.config.toConfig = .ok trusted ∧
    l.runtime = ⟨l.config,(l.generation,Router.fromConfig l.config.toConfig),l.client,
      l.config.rateLimit.map fun _ => l.generation,tls,
      if 0 < l.config.maxConnections then some l.generation else none,trusted⟩ := by
  have hbuilt := l.built
  obtain ⟨tls,htls,hbuilt⟩ := ok_of_bind hbuilt
  obtain ⟨trusted,htrusted,hbuilt⟩ := ok_of_bind hbuilt
  exact ⟨tls,trusted,ok_of_mapError htls,ok_of_mapError htrusted,(Except.ok.inj hbuilt).symm⟩

omit [F64 F] [LE F] [DecidableLE F] [HttpCrate] in
theorem isSome_of_loadAcceptor {loadTls : TlsConfig → Except String A} {config : Option TlsConfig}
    {tls : Option A} (h : loadAcceptor loadTls config = .ok tls) : tls.isSome = config.isSome := by
  cases config with
  | none =>
    cases h
    rfl
  | some t =>
    obtain ⟨acceptor,-,rfl⟩ := ok_of_map h
    rfl

theorem Loaded.derivedFrom (l : Loaded F A) : DerivedFrom l l.runtime.snapshot.context := by
  obtain ⟨tls,trusted,htls,htrusted,hruntime⟩ := l.runtime_eq
  rw [hruntime]
  refine ⟨l.valid,⟨⟨l.config.toConfig,Router.fromConfig l.config.toConfig,l.config.rateLimit.map fun _ => l.generation,
    l.config.tls.isSome,if 0 < l.config.maxConnections then some l.generation else none,trusted⟩,?_,?_,rfl⟩,
    rfl,rfl,htls⟩
  · have houtcome : l.tlsOutcome = .ok () := by rw [Loaded.tlsOutcome,htls]; rfl
    simp only [Connection.Runtime.fromConfig,houtcome,ite_self,htrusted]
    rfl
  · simp only [Snapshot.context,Runtime.snapshot,proxyContext,isSome_of_loadAcceptor htls]

theorem Loaded.stemFrom (l : Loaded F A) : StemFrom l (startUp l).cells := by
  obtain ⟨tls,trusted,-,-,hruntime⟩ := l.runtime_eq
  refine ⟨l.valid,?_,?_,?_,rfl,l.built⟩
  · simp only [startUp,hruntime]
  · simp only [startUp,hruntime]
  · simp only [startUp,hruntime]

/-- Whatever reloads and dispatches come in between: reloads that fail leave the cells as they
were, each connection goes by one configuration, and when no reload is in progress all cells are
those of the last configuration loaded. -/
theorem reload_all_or_nothing (first : Loaded F A) {events : List (Event F A)} {s : State F A}
    (hrun : exec step (startUp first) events = some s) :
    (∀ more s', s.phase = .idle → exec step s more = some s' → s'.loaded = s.loaded → s'.cells = s.cells) ∧
    (∀ c ∈ s.connections, ∃ l ∈ s.loaded, DerivedFrom l c.context) ∧
    (s.phase = .idle → ∃ l, s.loaded.getLast? = some l ∧ StemFrom l s.cells) := by
  have hsound : Sound s := exec_invariant (fun _ _ _ => Sound.step) (sound_startUp first) hrun
  refine ⟨?_,?_,?_⟩
  · intro more s' hphase hmore hloaded
    have hstart : Unloaded s s := Or.inl ⟨rfl,rfl,by rw [hphase]; rfl⟩
    rcases exec_invariant (fun _ _ _ => Unloaded.step) hstart hmore with ⟨-,hcells,-⟩ | hlonger
    · exact hcells
    · rw [hloaded] at hlonger
      exact absurd hlonger (lt_irrefl _)
  · intro c hc
    obtain ⟨l,hl,rfl⟩ := hsound.connections c hc
    exact ⟨l,hl,l.derivedFrom⟩
  · intro hphase
    obtain ⟨l,hlatest⟩ := hsound.latest
    have hcells := hlatest.cells
    rw [hphase] at hcells
    refine ⟨l,hlatest.last,?_⟩
    have hwritten : s.cells = (startUp l).cells := hcells
    rw [hwritten]
    exact l.stemFrom

end

def tokenConfig (token : String) : FileConfig ℚ where
  toConfig := { Config.ofPools [⟨"http://a",1⟩] [] with adminToken := some token }
  upstreamHttp2 := false
  poolMaxIdlePerHost := 64

def tokenFiles (token : String) : Files ℚ := ⟨.ok token,fun text => .ok (tokenConfig text),fun _ => false⟩

def firstLoaded : @Loaded ℚ Unit _ _ _ visibleAscii :=
  letI := visibleAscii
  { files := tokenFiles "first"
    config := tokenConfig "first"
    accepted := fromFile_ok rfl rfl (by decide +kernel)
    generation := 0
    loadTls := fun _ => .ok ()
    runtime := ⟨tokenConfig "first",(0,Router.fromConfig (tokenConfig "first").toConfig),
      ⟨⟨seconds 5,64,false⟩,0⟩,none,none,none,none⟩
    built := rfl }

def emptyFiles : Files ℚ :=
  { tokenFiles "empty" with
    fromStr := fun text =>
      .ok { tokenConfig text with toConfig := { (tokenConfig text).toConfig with upstreams := [] } } }

/-- A reload of a file that cannot be read, and one of a file that is not valid. -/
def failedReloads : List (Event ℚ Unit) :=
  [.sighup,.receive,.load { tokenFiles "second" with readToString := .error "not found" },
    .sighup,.receive,.load emptyFiles]

/-- A reload that succeeds, with a connection dispatched between its writes and one after it. -/
def goodReload : List (Event ℚ Unit) :=
  [.sighup,.receive,.load (tokenFiles "second"),.build fun _ => .ok (),.write,.write,.dispatch,.write,.write,.write,
    .dispatch]

def Phase.isIdle [F64 F] [LE F] [DecidableLE F] [HttpCrate] : Phase F A → Bool
  | .idle => true
  | _ => false

theorem Phase.eq_idle [F64 F] [LE F] [DecidableLE F] [HttpCrate] {phase : Phase F A} (h : phase.isIdle = true) :
    phase = .idle := by
  cases phase with
  | idle => rfl
  | _ => cases h

theorem reload_all_or_nothing_failing :
    letI := visibleAscii
    fromFile emptyFiles = .error "configure either top-level `upstreams` or at least one `routes` entry" ∧
    (∃ s, exec step (startUp firstLoaded) failedReloads = some s ∧ s.cells = (startUp firstLoaded).cells) ∧
    ∃ s, exec step (startUp firstLoaded) (failedReloads++goodReload) = some s ∧
      s.loaded.length = 2 ∧ s.connections.length = 2 ∧
      (∀ c ∈ s.connections, ∃ l ∈ s.loaded, DerivedFrom l c.context) ∧
      ∃ l, s.loaded.getLast? = some l ∧ StemFrom l s.cells := by
  let _ := visibleAscii
  have hshown : (exec step (startUp firstLoaded) (failedReloads++goodReload)).map
      (fun s => (s.loaded.length,s.connections.length,s.phase.isIdle)) = some (2,2,true) := by
    decide +kernel
  refine ⟨rfl,?_,?_⟩
  · have hloaded : (exec step (startUp firstLoaded) failedReloads).map State.loaded = some [firstLoaded] := rfl
    obtain ⟨s,hrun,hs⟩ := Option.map_eq_some_iff.mp hloaded
    have hstart : exec step (startUp firstLoaded) [] = some (startUp firstLoaded) := rfl
    exact ⟨s,hrun,(reload_all_or_nothing firstLoaded hstart).1 failedReloads s rfl hrun hs⟩
  · obtain ⟨s,hrun,hs⟩ := Option.map_eq_some_iff.mp hshown
    simp only [Prod.mk.injEq] at hs
    obtain ⟨hloaded,hconnections,hidle⟩ := hs
    obtain ⟨-,hcontexts,hcells⟩ := reload_all_or_nothing firstLoaded hrun
    exact ⟨s,hrun,hloaded,hconnections,hcontexts,hcells (Phase.eq_idle hidle)⟩

end HotReload
end OxiGate
