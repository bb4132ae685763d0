import OxiGate.BoundedQueue
import OxiGate.Runs

/-! The buffer pool. Handles come and go in any order; of what they do, only one push or one pop
touches what is shared, so that acquiring and dropping are single steps. Between them the holder of
a handle does with the buffer as it likes. -/
namespace OxiGate
namespace Buffers

open Runs

/-- `crossbeam_queue::ArrayQueue`. -/
abbrev ArrayQueue := BoundedQueue

/-- `bytes::BytesMut`. -/
structure BytesMut where
  bytes : List UInt8
  capacity : ℕ
  fits : bytes.length ≤ capacity
  deriving DecidableEq

namespace BytesMut

def clear (b : BytesMut) : BytesMut := ⟨[],b.capacity,Nat.zero_le _⟩

/-- What `split_off` leaves: the bytes and the capacity before the index. -/
def splitOff (b : BytesMut) (index : ℕ) : BytesMut :=
  ⟨b.bytes.take index,min index b.capacity,by
    rw [List.length_take]
    exact min_le_min_left index b.fits⟩

def extend (b : BytesMut) (more : List UInt8) : BytesMut :=
  ⟨b.bytes++more,max b.capacity (b.bytes.length+more.length),by simp⟩

end BytesMut

/-- Allocation. `with_capacity` gives what is asked for or more, and two things are assumed: that it is at
most twice as much, and that `reserve` leaves a buffer with room as it is. -/
class BytesCrate where
  withCapacity : ℕ → BytesMut
  reserve : BytesMut → ℕ → BytesMut
  bytes_withCapacity : ∀ n, (withCapacity n).bytes = []
  le_withCapacity : ∀ n, n ≤ (withCapacity n).capacity
  withCapacity_le : ∀ n, (withCapacity n).capacity ≤ 2*n
  reserve_of_le : ∀ b n, b.bytes.length+n ≤ b.capacity → reserve b n = b

structure BufferPool where
  inner : ArrayQueue BytesMut
  capacity : ℕ

/-- The queue a handle returns its buffer to is the pool's. -/
structure PooledBuf where
  buf : Option BytesMut
  capacity : ℕ

section Model

variable [BytesCrate]

def newBuf (capacity : ℕ) : BytesMut := BytesCrate.reserve (BytesCrate.withCapacity capacity) capacity

def BufferPool.new (size bufCapacity : ℕ) : BufferPool :=
  let size := max size 64
  let bufCapacity := max bufCapacity 1024
  ⟨(List.range size).foldl (fun q _ => (q.push (newBuf bufCapacity)).2) (.new size),bufCapacity⟩

def BufferPool.acquire (pool : BufferPool) : PooledBuf × BufferPool :=
  let r := pool.inner.pop
  (⟨some (r.1.getD (newBuf pool.capacity)),pool.capacity⟩,{ pool with inner := r.2 })

end Model

/-- Where there is no buffer, `expect` fails. -/
def PooledBuf.asMut (h : PooledBuf) : Option BytesMut := h.buf

def PooledBuf.drop (h : PooledBuf) (pool : ArrayQueue BytesMut) : ArrayQueue BytesMut :=
  match h.buf with
  | some b => if b.capacity ≤ h.capacity*2 then (pool.push b.clear).2 else pool
  | none => pool

theorem bound_drop (h : PooledBuf) (q : ArrayQueue BytesMut) : (h.drop q).bound = q.bound := by
  unfold PooledBuf.drop
  cases h.buf with
  | none => rfl
  | some b =>
    dsimp only
    split
    · exact BoundedQueue.bound_push q b.clear
    · rfl

structure Pools (h : PooledBuf) (q : ArrayQueue BytesMut) (b : BytesMut) : Prop where
  buf : h.buf = some b
  small : b.capacity ≤ h.capacity*2
  room : q.items.length < q.bound

theorem mem_of_mem_drop {h : PooledBuf} {q : ArrayQueue BytesMut} {b : BytesMut} (hb : b ∈ (h.drop q).items) :
    b ∈ q.items ∨ ∃ b', Pools h q b' ∧ b = b'.clear := by
  unfold PooledBuf.drop at hb
  cases hbuf : h.buf with
  | none =>
    rw [hbuf] at hb
    exact Or.inl hb
  | some b' =>
    rw [hbuf] at hb
    dsimp only at hb
    split at hb
    · rename_i hsmall
      rcases BoundedQueue.mem_of_mem_push hb with hb | ⟨hroom,hclear⟩
      · exact Or.inl hb
      · exact Or.inr ⟨b',⟨hbuf,hsmall,hroom⟩,hclear⟩
    · exact Or.inl hb

theorem Pools.items_drop {h : PooledBuf} {q : ArrayQueue BytesMut} {b : BytesMut} (hpools : Pools h q b) :
    (h.drop q).items = q.items++[b.clear] := by
  rw [PooledBuf.drop,hpools.buf]
  simp only [if_pos hpools.small,BoundedQueue.items_push,if_pos hpools.room]

/-- The buffer goes to the caller, and the handle is dropped without it. -/
def PooledBuf.intoInner (h : PooledBuf) (pool : ArrayQueue BytesMut) : Option (BytesMut × ArrayQueue BytesMut) :=
  h.buf.map fun b => (b,PooledBuf.drop { h with buf := none } pool)

structure State where
  pool : BufferPool
  handles : List PooledBuf

inductive Action
  | acquire
  | use (i : ℕ) (f : BytesMut → BytesMut)
  | drop (i : ℕ)
  | intoInner (i : ℕ)

def State.withQueue (s : State) (q : ArrayQueue BytesMut) (handles : List PooledBuf) : State :=
  ⟨{ s.pool with inner := q },handles⟩

section Runs

variable [BytesCrate]

def step (s : State) : Action → Option State
  | .acquire => some ⟨s.pool.acquire.2,s.handles++[s.pool.acquire.1]⟩
  | .use i f => do
    let h ← s.handles[i]?
    let b ← h.asMut
    some { s with handles := s.handles.set i { h with buf := some (f b) } }
  | .drop i => do
    let h ← s.handles[i]?
    some (s.withQueue (h.drop s.pool.inner) (s.handles.eraseIdx i))
  | .intoInner i => do
    let h ← s.handles[i]?
    let r ← h.intoInner s.pool.inner
    some (s.withQueue r.2 (s.handles.eraseIdx i))

def start (size bufCapacity : ℕ) : State := ⟨BufferPool.new size bufCapacity,[]⟩

/-- An empty buffer of the pool's capacity, or up to twice as much. -/
structure Ready (capacity : ℕ) (b : BytesMut) : Prop where
  empty : b.bytes = []
  large : capacity ≤ b.capacity
  small : b.capacity ≤ 2*capacity

def acquiredAfter (pool : BufferPool) (n : ℕ) : PooledBuf :=
  ((fun p => (BufferPool.acquire p).2)^[n] pool).acquire.1

/-- The queue is within its size and its buffers are empty, and whatever is acquired from here on is ready. -/
structure Sound (size capacity : ℕ) (s : State) : Prop where
  queue : s.pool.inner.items.length ≤ size
  pooled : ∀ b ∈ s.pool.inner.items, b.bytes = []
  acquired : ∀ n, ∃ b, (acquiredAfter s.pool n).buf = some b ∧ Ready capacity b

/-- The step does not drop a handle whose buffer has less than the pool's capacity, if there is room
for it in the queue. -/
def KeepsCapacity (s : State) (a : Action) : Prop :=
  ∀ i h b, a = .drop i → s.handles[i]? = some h → h.buf = some b →
    s.pool.capacity ≤ b.capacity ∨ s.pool.inner.bound ≤ s.pool.inner.items.length

theorem newBuf_eq (capacity : ℕ) : newBuf capacity = BytesCrate.withCapacity capacity := by
  apply BytesCrate.reserve_of_le
  rw [BytesCrate.bytes_withCapacity,List.length_nil,Nat.zero_add]
  exact BytesCrate.le_withCapacity capacity

theorem ready_newBuf (capacity : ℕ) : Ready capacity (newBuf capacity) := by
  rw [newBuf_eq]
  exact ⟨BytesCrate.bytes_withCapacity _,BytesCrate.le_withCapacity _,BytesCrate.withCapacity_le _⟩

theorem items_new (size bufCapacity : ℕ) : (BufferPool.new size bufCapacity).inner.items =
    List.replicate (max size 64) (newBuf (max bufCapacity 1024)) := by
  have hpushes := BoundedQueue.items_pushes (newBuf (max bufCapacity 1024)) (List.range (max size 64))
    (.new (max size 64)) (by simp [BoundedQueue.new])
  rw [List.length_range] at hpushes
  exact hpushes

theorem acquires_eq (pool : BufferPool) (n : ℕ) : (fun p => (BufferPool.acquire p).2)^[n] pool =
    { pool with inner := (fun q => (BoundedQueue.pop q).2)^[n] pool.inner } := by
  induction n generalizing pool with
  | zero => rfl
  | succ n ih =>
    rw [Function.iterate_succ_apply,Function.iterate_succ_apply,ih]
    rfl

theorem buf_acquiredAfter (pool : BufferPool) (n : ℕ) :
    (acquiredAfter pool n).buf = some ((pool.inner.items[n]?).getD (newBuf pool.capacity)) := by
  have hhead : ((fun q => (BoundedQueue.pop q).2)^[n] pool.inner).items.head? = pool.inner.items[n]? := by
    rw [BoundedQueue.items_pops,List.head?_drop]
  rw [← hhead,acquiredAfter,acquires_eq]
  rfl

theorem acquired_iff {pool : BufferPool} {capacity : ℕ} (hcap : pool.capacity = capacity) :
    (∀ n, ∃ b, (acquiredAfter pool n).buf = some b ∧ Ready capacity b) ↔
      ∀ b ∈ pool.inner.items, Ready capacity b := by
  constructor
  · intro h b hb
    obtain ⟨n,hn⟩ := List.mem_iff_getElem?.mp hb
    obtain ⟨b',hb',hready⟩ := h n
    rw [buf_acquiredAfter,hn] at hb'
    cases hb'
    exact hready
  · intro h n
    refine ⟨_,buf_acquiredAfter pool n,?_⟩
    cases hn : pool.inner.items[n]? with
    | none =>
      rw [hcap]
      exact ready_newBuf capacity
    | some b => exact h b (List.mem_of_getElem? hn)

theorem step_use {s s' : State} {i : ℕ} {f : BytesMut → BytesMut} (h : step s (.use i f) = some s') :
    ∃ hd b, s.handles[i]? = some hd ∧ hd.buf = some b ∧
      s' = { s with handles := s.handles.set i { hd with buf := some (f b) } } := by
  obtain ⟨hd,hget,hrest⟩ := Option.bind_eq_some_iff.mp h
  obtain ⟨b,hbuf,heq⟩ := Option.bind_eq_some_iff.mp hrest
  exact ⟨hd,b,hget,hbuf,(Option.some.inj heq).symm⟩

theorem step_drop {s s' : State} {i : ℕ} (h : step s (.drop i) = some s') :
    ∃ hd, s.handles[i]? = some hd ∧ s' = s.withQueue (hd.drop s.pool.inner) (s.handles.eraseIdx i) := by
  obtain ⟨hd,hget,heq⟩ := Option.bind_eq_some_iff.mp h
  exact ⟨hd,hget,(Option.some.inj heq).symm⟩

theorem step_intoInner {s s' : State} {i : ℕ} (h : step s (.intoInner i) = some s') :
    s' = { s with handles := s.handles.eraseIdx i } := by
  obtain ⟨hd,hget,hrest⟩ := Option.bind_eq_some_iff.mp h
  obtain ⟨r,hr,heq⟩ := Option.bind_eq_some_iff.mp hrest
  obtain ⟨b,hbuf,rfl⟩ := Option.map_eq_some_iff.mp hr
  exact (Option.some.inj heq).symm

theorem mem_step {s s' : State} {a : Action} (hstep : step s a = some s') {b : BytesMut}
    (hb : b ∈ s'.pool.inner.items) : b ∈ s.pool.inner.items ∨ ∃ i h b', a = .drop i ∧
      s.handles[i]? = some h ∧ Pools h s.pool.inner b' ∧ b = b'.clear := by
  cases a with
  | acquire =>
    cases hstep
    exact Or.inl (List.mem_of_mem_tail hb)
  | use i f =>
    obtain ⟨h,b',hget,hbuf,rfl⟩ := step_use hstep
    exact Or.inl hb
  | drop i =>
    obtain ⟨h,hget,rfl⟩ := step_drop hstep
    rcases mem_of_mem_drop hb with hb | ⟨b',hpools,hclear⟩
    · exact Or.inl hb
    · exact Or.inr ⟨i,h,b',rfl,hget,hpools,hclear⟩
  | intoInner i =>
    rw [step_intoInner hstep] at hb
    exact Or.inl hb

/-- What holds in every run: the sizes are those of the pool, every handle has its buffer, and the
pooled buffers are empty and not too large. -/
structure Kept (size capacity : ℕ) (s : State) : Prop where
  bound_eq : s.pool.inner.bound = size
  capacity_eq : s.pool.capacity = capacity
  handles : ∀ h ∈ s.handles, h.capacity = capacity ∧ h.buf.isSome = true
  pooled : ∀ b ∈ s.pool.inner.items, b.bytes = [] ∧ b.capacity ≤ 2*capacity

theorem ready_of_mem_start {size bufCapacity : ℕ} {b : BytesMut}
    (hb : b ∈ (start size bufCapacity).pool.inner.items) : Ready (max bufCapacity 1024) b := by
  have hitems : (start size bufCapacity).pool.inner.items = _ := items_new size bufCapacity
  rw [hitems] at hb
  rw [List.eq_of_mem_replicate hb]
  exact ready_newBuf (max bufCapacity 1024)

theorem kept_start (size bufCapacity : ℕ) :
    Kept (max size 64) (max bufCapacity 1024) (start size bufCapacity) := by
  refine ⟨BoundedQueue.bound_pushes _ _ _,rfl,fun _ hmem => absurd hmem List.not_mem_nil,?_⟩
  intro b hb
  exact ⟨(ready_of_mem_start hb).empty,(ready_of_mem_start hb).small⟩

theorem Kept.step {size capacity : ℕ} {s s' : State} {a : Action} (h : Kept size capacity s)
    (hstep : step s a = some s') : Kept size capacity s' := by
  have hpooled : ∀ b ∈ s'.pool.inner.items, b.bytes = [] ∧ b.capacity ≤ 2*capacity := by
    intro b hb
    rcases mem_step hstep hb with hb | ⟨i,hd,b',-,hget,hpools,rfl⟩
    · exact h.pooled b hb
    · refine ⟨rfl,?_⟩
      have hsmall := hpools.small
      rw [(h.handles hd (List.mem_of_getElem? hget)).1,Nat.mul_comm] at hsmall
      exact hsmall
  cases a with
  | acquire =>
    cases hstep
    refine ⟨h.bound_eq,h.capacity_eq,?_,hpooled⟩
    intro hd hmem
    rcases List.mem_append.mp hmem with hmem | hmem
    · exact h.handles hd hmem
    · cases List.mem_singleton.mp hmem
      exact ⟨h.capacity_eq,rfl⟩
  | use i f =>
    obtain ⟨hd,b,hget,hbuf,rfl⟩ := step_use hstep
    refine ⟨h.bound_eq,h.capacity_eq,?_,hpooled⟩
    intro hd' hmem
    rcases List.mem_or_eq_of_mem_set hmem with hmem | rfl
    · exact h.handles hd' hmem
    · exact ⟨(h.handles hd (List.mem_of_getElem? hget)).1,rfl⟩
  | drop i =>
    obtain ⟨hd,hget,rfl⟩ := step_drop hstep
    exact ⟨(bound_drop hd _).trans h.bound_eq,h.capacity_eq,
      fun hd' hmem => h.handles hd' (List.mem_of_mem_eraseIdx hmem),hpooled⟩
  | intoInner i =>
    cases step_intoInner hstep
    exact ⟨h.bound_eq,h.capacity_eq,fun hd hmem => h.handles hd (List.mem_of_mem_eraseIdx hmem),hpooled⟩

theorem kept_of_run {size bufCapacity : ℕ} {s : State} {actions : List Action}
    (hrun : exec step (start size bufCapacity) actions = some s) :
    Kept (max size 64) (max bufCapacity 1024) s :=
  exec_invariant (fun _ _ _ h hstep => h.step hstep) (kept_start size bufCapacity) hrun

def Roomy (s : State) : Prop := ∀ b ∈ s.pool.inner.items, s.pool.capacity ≤ b.capacity

theorem Kept.sound_iff {size capacity : ℕ} {s : State} (h : Kept size capacity s) :
    Sound size capacity s ↔ Roomy s := by
  constructor
  · intro hsound b hb
    rw [h.capacity_eq]
    exact ((acquired_iff h.capacity_eq).mp hsound.acquired b hb).large
  · intro hroomy
    refine ⟨h.bound_eq ▸ s.pool.inner.length_le,fun b hb => (h.pooled b hb).1,(acquired_iff h.capacity_eq).mpr ?_⟩
    intro b hb
    exact ⟨(h.pooled b hb).1,h.capacity_eq ▸ hroomy b hb,(h.pooled b hb).2⟩

theorem capacity_step {s s' : State} {a : Action} (hstep : step s a = some s') :
    s'.pool.capacity = s.pool.capacity := by
  cases a with
  | acquire =>
    cases hstep
    rfl
  | use i f =>
    obtain ⟨h,b,-,-,rfl⟩ := step_use hstep
    rfl
  | drop i =>
    obtain ⟨h,-,rfl⟩ := step_drop hstep
    rfl
  | intoInner i =>
    cases step_intoInner hstep
    rfl

theorem Roomy.step {s s' : State} {a : Action} (h : Roomy s) (hkeeps : KeepsCapacity s a)
    (hstep : step s a = some s') : Roomy s' := by
  intro b hb
  rw [capacity_step hstep]
  rcases mem_step hstep hb with hb | ⟨i,hd,b',ha,hget,hpools,rfl⟩
  · exact h b hb
  · exact (hkeeps i hd b' ha hget hpools.buf).resolve_right (not_le.mpr hpools.room)

theorem not_roomy_of_drop {size capacity : ℕ} {s s' : State} {a : Action} (h : Kept size capacity s)
    (hnot : ¬KeepsCapacity s a) (hstep : step s a = some s') : ¬Roomy s' := by
  unfold KeepsCapacity at hnot
  push Not at hnot
  obtain ⟨i,hd,b,rfl,hget,hbuf,hless,hroom⟩ := hnot
  obtain ⟨hd',hget',rfl⟩ := step_drop hstep
  rw [hget] at hget'
  cases hget'
  have hsmall : b.capacity ≤ hd.capacity*2 := by
    rw [(h.handles hd (List.mem_of_getElem? hget)).1,← h.capacity_eq]
    omega
  have hpools : Pools hd s.pool.inner b := ⟨hbuf,hsmall,hroom⟩
  intro hroomy
  have hlarge : s.pool.capacity ≤ b.clear.capacity := by
    apply hroomy
    show b.clear ∈ (hd.drop s.pool.inner).items
    rw [hpools.items_drop]
    exact List.mem_append_right _ List.mem_cons_self
  exact absurd hlarge (not_le.mpr hless)

/-- All along a run the queue is within its size, pooled buffers are empty and acquired ones are ready,
exactly if no handle is dropped that has less than the pool's capacity and finds room in the queue. -/
theorem pool_sound_iff {size bufCapacity : ℕ} {s : State} {actions : List Action}
    (hrun : exec step (start size bufCapacity) actions = some s) :
    Throughout step (Sound (max size 64) (max bufCapacity 1024)) (start size bufCapacity) actions ↔
      Along step KeepsCapacity (start size bufCapacity) actions := by
  have hroomy : Roomy (start size bufCapacity) := fun b hb => (ready_of_mem_start hb).large
  have hiff := throughout_iff (P := fun s => Kept (max size 64) (max bufCapacity 1024) s ∧ Roomy s)
    (fun s a s' h hkeeps hstep => ⟨h.1.step hstep,h.2.step hkeeps hstep⟩)
    (fun s a s' h hnot hstep hafter => not_roomy_of_drop h.1 hnot hstep hafter.2)
    ⟨kept_start size bufCapacity,hroomy⟩ hrun
  rw [← hiff]
  constructor
  · intro hsound front back m heq hfront
    have hkept := kept_of_run hfront
    exact ⟨hkept,hkept.sound_iff.mp (hsound front back m heq hfront)⟩
  · intro hboth front back m heq hfront
    obtain ⟨hkept,hlarge⟩ := hboth front back m heq hfront
    exact hkept.sound_iff.mpr hlarge

end Runs

@[reducible] def exactBytes : BytesCrate where
  withCapacity n := ⟨[],n,Nat.zero_le n⟩
  reserve b n := if b.bytes.length+n ≤ b.capacity then b else ⟨b.bytes,b.bytes.length+n,Nat.le_add_right _ _⟩
  bytes_withCapacity _ := rfl
  le_withCapacity _ := le_rfl
  withCapacity_le n := Nat.le_mul_of_pos_left n Nat.two_pos
  reserve_of_le _ _ h := if_pos h

/-- A buffer is acquired, part of it is split off, and it is dropped: the sixty-fourth buffer acquired
after that has the capacity that was left. -/
theorem small_buffer_recycled :
    (exec (@step exactBytes) (@start exactBytes 64 1024) [.acquire,.use 0 (·.splitOff 16),.drop 0]).map
      (fun s => ((@acquiredAfter exactBytes s.pool 63).buf.map BytesMut.capacity)) = some (some 16) := by
  decide +kernel

theorem pool_sound_iff_written :
    let actions := [.acquire,.use 0 (·.extend [1,2,3]),.drop 0,.acquire]
    ∃ s, exec (@step exactBytes) (@start exactBytes 64 1024) actions = some s ∧
      @Throughout State Action (@step exactBytes) (@Sound exactBytes 64 1024) (@start exactBytes 64 1024) actions := by
  let _ := exactBytes
  intro actions
  have hruns : (exec step (start 64 1024) actions).isSome = true := by decide +kernel
  obtain ⟨s,hs⟩ := Option.isSome_iff_exists.mp hruns
  refine ⟨s,hs,(pool_sound_iff hs).mpr ?_⟩
  have hwritten : (exec step (start 64 1024) [.acquire,.use 0 (·.extend [1,2,3])]).map
      (fun m => (m.pool.capacity,m.handles.map fun h => h.buf.map BytesMut.capacity)) =
      some (1024,[some 1024]) := by decide +kernel
  rintro front a back m heq hfront i h b rfl hget hbuf
  unfold actions at heq
  rcases front with _ | ⟨x,_ | ⟨y,_ | ⟨z,_ | ⟨w,front⟩⟩⟩⟩
  · cases heq
  · cases heq
  · cases heq
    rw [hfront] at hwritten
    obtain ⟨hcap,hhandles⟩ := Prod.mk.inj (Option.some.inj hwritten)
    have hfirst : (m.handles.map fun h => h.buf.map BytesMut.capacity)[0]? = some (some b.capacity) := by
      rw [List.getElem?_map,hget,Option.map_some,hbuf,Option.map_some]
    rw [hhandles] at hfirst
    have hlarge : 1024 = b.capacity := Option.some.inj (Option.some.inj hfirst)
    exact Or.inl (by rw [hcap,hlarge])
  · cases heq
  · simp at heq

end Buffers
end OxiGate
