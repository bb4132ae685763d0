import OxiGate.Connection
import OxiGate.Validator

/-! What an access list means. Entries are read as blocks of addresses that agree in their leading
bits, and the masks of the code are shown to compare exactly these. -/
namespace OxiGate
namespace Security

open ByteReader ProxyProtocol Net RustText Http Proxy Connection

variable {F S : Type}

section Bits

/-- The `i`-th bit of an address, counted from the first bit of the first octet. -/
def addressBit {n : ℕ} (octets : Octets n) (i : ℕ) : Bool :=
  (octets.toList.getD (i/8) 0).toNat.testBit (7-i % 8)

def octetsValue (octets : List UInt8) : ℕ := octets.foldl (fun acc b => acc*256+b.toNat) 0

theorem octetsValue_concat (octets : List UInt8) (b : UInt8) :
    octetsValue (octets++[b]) = 2^8*octetsValue octets+b.toNat := by
  simp [octetsValue,Nat.mul_comm]

theorem testBit_octetsValue (octets : List UInt8) (k j : ℕ) (hj : j < 8) :
    (octetsValue octets).testBit (8*k+j) = (octets.reverse.getD k 0).toNat.testBit j := by
  induction octets using List.reverseRecOn generalizing k with
  | nil => simp [octetsValue]
  | append_singleton octets b ih =>
    have hlt : b.toNat < 2^8 := b.toNat_lt
    rw [octetsValue_concat,Nat.testBit_two_pow_mul_add _ hlt]
    cases k with
    | zero => simp [hj]
    | succ k =>
      rw [if_neg (by omega),show 8*(k+1)+j-8 = 8*k+j by omega,ih]
      simp

theorem getMsbD_toBits {w n : ℕ} (hw : w = 8*n) (octets : Octets n) {i : ℕ} (hi : i < w) :
    (toBits w octets).getMsbD i = addressBit octets i := by
  have hlen : octets.toList.length = n := octets.toList_length
  have hindex : w-1-i = 8*(n-1-i/8)+(7-i % 8) := by omega
  have hreverse : octets.toList.reverse.getD (n-1-i/8) 0 = octets.toList.getD (i/8) 0 := by
    rw [List.getD_eq_getElem?_getD,List.getD_eq_getElem?_getD,List.getElem?_reverse (by omega)]
    congr 2
    omega
  have hbit := testBit_octetsValue octets.toList (n-1-i/8) (7-i % 8) (by omega)
  rw [hreverse,← hindex] at hbit
  have hlt : w-1-i < w := by omega
  rw [BitVec.getMsbD_eq_getLsbD,toBits,BitVec.getLsbD_ofNat,decide_eq_true hi,decide_eq_true hlt,
    Bool.true_and,Bool.true_and]
  exact hbit

theorem getLsbD_lowOnes {w k j : ℕ} (hk : k < w) (hj : j < w) :
    ((1#w <<< k)-1#w).getLsbD j = decide (j < k) := by
  have hpow : 2^k < 2^w := Nat.pow_lt_pow_right Nat.one_lt_two hk
  have hpos : 0 < 2^k := Nat.two_pow_pos k
  have hones : (1#w <<< k)-1#w = BitVec.ofNat w (2^k-1) := by
    apply BitVec.eq_of_toNat_eq
    have hone : 1 % 2^w = 1 := Nat.mod_eq_of_lt (Nat.one_lt_two_pow (by omega))
    simp only [BitVec.toNat_sub,BitVec.toNat_shiftLeft,BitVec.toNat_ofNat,hone,Nat.one_shiftLeft,
      Nat.mod_eq_of_lt hpow]
    rw [show 2^w-1+2^k = 2^k-1+2^w by omega,Nat.add_mod_right]
  rw [hones,BitVec.getLsbD_ofNat,Nat.testBit_two_pow_sub_one,decide_eq_true hj,Bool.true_and]

theorem getMsbD_netMask {w : ℕ} (prefixLen : ℕ) {i : ℕ} (hi : i < w) :
    (netMask w prefixLen).getMsbD i = decide (i < prefixLen) := by
  unfold netMask
  split
  · rename_i hfull
    rw [decide_eq_true (by omega : i < prefixLen)]
    simp [BitVec.getMsbD_eq_getLsbD,hi]
    omega
  · split
    · rename_i hzero
      simp [hzero]
    · rw [BitVec.getMsbD_eq_getLsbD,BitVec.getLsbD_not,getLsbD_lowOnes (by omega) (by omega),
        decide_eq_true hi,decide_eq_true (by omega : w-1-i < w),Bool.true_and,Bool.true_and,← decide_not,
        decide_eq_decide]
      omega

theorem masked_eq_iff {w : ℕ} (x y : BitVec w) (prefixLen : ℕ) :
    x &&& netMask w prefixLen = y &&& netMask w prefixLen ↔
      ∀ i < min prefixLen w, x.getMsbD i = y.getMsbD i := by
  constructor
  · intro h i hi
    have hbit := congrArg (fun z : BitVec w => z.getMsbD i) h
    have hmask : (netMask w prefixLen).getMsbD i = true := by
      rw [getMsbD_netMask prefixLen (by omega)]
      exact decide_eq_true (by omega)
    simpa [hmask] using hbit
  · intro h
    apply BitVec.eq_of_getMsbD_eq
    intro i hi
    rw [BitVec.getMsbD_and,BitVec.getMsbD_and,getMsbD_netMask prefixLen hi]
    by_cases hlt : i < prefixLen
    · rw [h i (by omega)]
    · simp [hlt]

/-- Two addresses agree in their first `k` bits. -/
def AgreeOn {n : ℕ} (k : ℕ) (a b : Octets n) : Prop := ∀ i < k, addressBit a i = addressBit b i

theorem masked_toBits_iff {w n : ℕ} (hw : w = 8*n) (a b : Octets n) (prefixLen : ℕ) :
    toBits w a &&& netMask w prefixLen = toBits w b &&& netMask w prefixLen ↔ AgreeOn (min prefixLen w) a b := by
  rw [masked_eq_iff]
  constructor
  · intro h i hi
    rw [← getMsbD_toBits hw a (by omega),← getMsbD_toBits hw b (by omega)]
    exact h i hi
  · intro h i hi
    rw [getMsbD_toBits hw a (by omega),getMsbD_toBits hw b (by omega)]
    exact h i hi

end Bits

section Overflow

/-- A subtraction that would panic below zero. -/
def checkedSub (a b : ℕ) : Option ℕ := if b ≤ a then some (a-b) else none

def checkedShl {w : ℕ} (x : BitVec w) (n : ℕ) : Option (BitVec w) := if n < w then some (x <<< n) else none

def checkedPred {w : ℕ} (x : BitVec w) : Option (BitVec w) := if x = 0#w then none else some (x-1#w)

/-- The mask as a build with overflow checks computes it. -/
def checkedNetMask (w prefixLen : ℕ) : Option (BitVec w) :=
  if w ≤ prefixLen then some (BitVec.allOnes w)
  else if prefixLen = 0 then some 0
  else do
    let shift ← checkedSub w prefixLen
    let bit ← checkedShl 1#w shift
    let low ← checkedPred bit
    some (~~~low)

theorem checkedNetMask_eq (w prefixLen : ℕ) : checkedNetMask w prefixLen = some (netMask w prefixLen) := by
  unfold checkedNetMask netMask
  split
  · rfl
  · rename_i hlt
    split
    · rfl
    · rename_i hpos
      have hshift : w-prefixLen < w := by omega
      have hbit : 1#w <<< (w-prefixLen) ≠ 0#w := by
        intro h
        have hvalue := congrArg BitVec.toNat h
        have hpow : 2^(w-prefixLen) < 2^w := Nat.pow_lt_pow_right Nat.one_lt_two hshift
        have hone : 1 % 2^w = 1 := Nat.mod_eq_of_lt (Nat.one_lt_two_pow (by omega))
        simp only [BitVec.toNat_shiftLeft,BitVec.toNat_ofNat,hone,Nat.one_shiftLeft,Nat.mod_eq_of_lt hpow,
          Nat.zero_mod] at hvalue
        exact absurd hvalue (Nat.two_pow_pos _).ne'
      simp [checkedSub,checkedShl,checkedPred,Nat.le_of_not_le hlt,hshift,hbit]

end Overflow

section Entries

def addrWidth : IpAddr → ℕ
  | .v4 _ => 32
  | .v6 _ => 128

/-- The block of addresses that an entry `addr/prefix`, or a bare address, stands for. -/
def Denotes (entry : String) (addr : IpAddr) (prefixLen : ℕ) : Prop :=
  match splitOnce '/' entry.toList with
  | some (ip,pfx) => parseIpAddr ip = some addr ∧ parseUint 255 pfx = .ok prefixLen
  | none => parseIpAddr entry.toList = some addr ∧ prefixLen = addrWidth addr

/-- Of one family, with the same leading bits. -/
def InBlock (addr ip : IpAddr) (prefixLen : ℕ) : Prop :=
  match addr,ip with
  | .v4 a, .v4 b => AgreeOn (min prefixLen 32) a b
  | .v6 a, .v6 b => AgreeOn (min prefixLen 128) a b
  | _, _ => False

def Covers (entry : String) (ip : IpAddr) : Prop :=
  ∃ addr prefixLen, Denotes entry addr prefixLen ∧ InBlock addr ip prefixLen

theorem contains_iff (net : IpNet) (ip : IpAddr) : net.contains ip = true ↔ InBlock net.addr ip net.prefixLen := by
  rcases net with ⟨a | a,prefixLen⟩ <;> cases ip with
  | v4 b => simp [IpNet.contains,InBlock,masked_toBits_iff (by rfl : 32 = 8*4)]
  | v6 b => simp [IpNet.contains,InBlock,masked_toBits_iff (by rfl : 128 = 8*16)]

theorem parseCidrAddr_eq_ok {text : Text} {addr : IpAddr} :
    parseCidrAddr text = .ok addr ↔ parseIpAddr text = some addr := by
  unfold parseCidrAddr
  split
  · rename_i addr' h
    simp [h]
  · rename_i h
    simp [h]

theorem parseCidr_eq_ok {entry : String} {net : IpNet} :
    parseCidr entry = .ok net ↔ Denotes entry net.addr net.prefixLen := by
  unfold parseCidr Denotes
  rcases splitOnce '/' entry.toList with _ | ⟨ip,pfx⟩
  · simp only [bind_eq_ok,parseCidrAddr_eq_ok]
    constructor
    · rintro ⟨addr,haddr,heq⟩
      cases heq
      exact ⟨haddr,by cases addr <;> rfl⟩
    · rintro ⟨haddr,hlen⟩
      refine ⟨net.addr,haddr,?_⟩
      rcases net with ⟨a | a,prefixLen⟩
      · cases hlen
        rfl
      · cases hlen
        rfl
  · simp only [bind_eq_ok,mapError_eq_ok,parseCidrAddr_eq_ok]
    constructor
    · rintro ⟨addr,haddr,prefixLen,hlen,heq⟩
      cases heq
      exact ⟨haddr,hlen⟩
    · rintro ⟨haddr,hlen⟩
      exact ⟨net.addr,haddr,net.prefixLen,hlen,rfl⟩

theorem covers_iff {entry : String} {net : IpNet} (h : parseCidr entry = .ok net) (ip : IpAddr) :
    Covers entry ip ↔ net.contains ip = true := by
  rw [contains_iff]
  constructor
  · rintro ⟨addr,prefixLen,hdenotes,hblock⟩
    have hparse : parseCidr entry = .ok ⟨addr,prefixLen⟩ := parseCidr_eq_ok.mpr hdenotes
    rw [h] at hparse
    cases hparse
    exact hblock
  · intro hblock
    exact ⟨net.addr,net.prefixLen,parseCidr_eq_ok.mp h,hblock⟩

theorem parseCidr_of_accepted {entry : String} (h : Validator.CidrAccepted entry) :
    ∃ net, parseCidr entry = .ok net := by
  unfold Validator.CidrAccepted at h
  cases hsplit : splitOnce '/' entry.toList with
  | none =>
    rw [hsplit] at h
    obtain ⟨addr,haddr⟩ := h
    exact ⟨⟨addr,addrWidth addr⟩,parseCidr_eq_ok.mpr (by simp [Denotes,hsplit,haddr])⟩
  | some parts =>
    rcases parts with ⟨ip,pfx⟩
    rw [hsplit] at h
    obtain ⟨⟨addr,haddr⟩,prefixLen,hlen,-⟩ := h
    exact ⟨⟨addr,prefixLen⟩,parseCidr_eq_ok.mpr (by simp [Denotes,hsplit,haddr,hlen])⟩

theorem mapM_accepted {entries : List String} (h : ∀ entry ∈ entries, Validator.CidrAccepted entry) :
    ∃ nets, entries.mapM parseCidr = .ok nets ∧ nets.length = entries.length ∧
      ∀ ip, nets.any (·.contains ip) = true ↔ ∃ entry ∈ entries, Covers entry ip := by
  induction entries with
  | nil => exact ⟨[],rfl,rfl,by simp⟩
  | cons entry entries ih =>
    obtain ⟨net,hnet⟩ := parseCidr_of_accepted (h entry List.mem_cons_self)
    obtain ⟨nets,hnets,hlength,hany⟩ := ih fun e he => h e (List.mem_cons_of_mem entry he)
    refine ⟨net::nets,?_,by simp [hlength],?_⟩
    · simp [List.mapM_cons,hnet,hnets,bind,Except.bind,pure,Except.pure]
    · intro ip
      rw [List.any_cons,Bool.or_eq_true,hany,← covers_iff hnet]
      simp

theorem fromConfig_accepted {allow deny : List String}
    (h : ∀ entry ∈ allow++deny, Validator.CidrAccepted entry) :
    ∃ acl, Acl.fromConfig allow deny = .ok acl ∧ ∀ ip, acl.isAllowed ip = true ↔
      (∀ entry ∈ deny, ¬Covers entry ip) ∧ (allow = [] ∨ ∃ entry ∈ allow, Covers entry ip) := by
  obtain ⟨allowed,hallow,hlength,hany⟩ := mapM_accepted fun e he => h e (List.mem_append_left deny he)
  obtain ⟨denied,hdeny,-,hany'⟩ := mapM_accepted fun e he => h e (List.mem_append_right allow he)
  have hempty : allowed = [] ↔ allow = [] := by
    rw [← List.length_eq_zero_iff,← List.length_eq_zero_iff,hlength]
  refine ⟨⟨allowed,denied⟩,?_,?_⟩
  · simp [Acl.fromConfig,hallow,hdeny,bind,Except.bind,pure,Except.pure]
  · intro ip
    have hnone : (∀ entry ∈ deny, ¬Covers entry ip) ↔ ¬denied.any (·.contains ip) = true := by
      rw [hany']
      simp
    rw [hnone,← hany,← hempty]
    unfold Acl.isAllowed
    by_cases hdenied : denied.any (·.contains ip) = true
    · simp [hdenied]
    · by_cases hnil : allowed = []
      · simp [hdenied,hnil]
      · simp [hdenied,hnil]

/-- Under an accepted configuration with an access list, every connection is served with it, and
it permits the addresses its entries say. The mask arithmetic overflows for no length. -/
theorem acl_meaning [RateLimit.F64 F] [LE F] [DecidableLE F] [HttpCrate] [AsyncRead UInt8 S]
    {fileExists : String → Bool} {config : Config F} {lists : AclConfig} {generation : ℕ}
    {loadTls : Except String Unit} {rt : Runtime F} (hvalid : Validator.validate fileExists config = .ok ())
    (hacl : config.acl = some lists) (hrt : Runtime.fromConfig generation loadTls config = .ok rt) :
    (∀ entry, Validator.validateCidr entry = .ok () → ∃ net, parseCidr entry = .ok net) ∧
    (∀ (stream : S) remoteAddr clientAddr ps ctx,
      handleOneConnection rt stream remoteAddr = .served clientAddr ps ctx →
      ctx.acl.isSome = true ∧ ∀ ip, aclAllows ctx ip = true ↔
        (∀ entry ∈ lists.deny, ¬Covers entry ip) ∧
          (lists.allow = [] ∨ ∃ entry ∈ lists.allow, Covers entry ip)) ∧
    ∀ prefixLen, checkedNetMask 32 prefixLen = some (netMask 32 prefixLen) ∧
      checkedNetMask 128 prefixLen = some (netMask 128 prefixLen) := by
  have haccepted := (Validator.validate_eq_ok.mp hvalid).acl lists hacl
  obtain ⟨acl,hbuilt,hallowed⟩ := fromConfig_accepted haccepted
  obtain ⟨hconfig,-⟩ := fromConfig_ok hrt
  have hctx : (proxyContext rt).acl = some acl := by
    simp [proxyContext,hconfig,hacl,hbuilt,Except.toOption]
  refine ⟨fun entry h => parseCidr_of_accepted (Validator.validateCidr_eq_ok.mp h),?_,
    fun prefixLen => ⟨checkedNetMask_eq 32 prefixLen,checkedNetMask_eq 128 prefixLen⟩⟩
  intro stream remoteAddr clientAddr ps ctx hserved
  unfold handleOneConnection at hserved
  split at hserved
  · cases hserved
    rw [hctx]
    refine ⟨rfl,fun ip => ?_⟩
    rw [← hallowed ip,aclAllows,hctx]
    rfl
  · cases hserved

/-- One network is allowed, except for a part of it. -/
def guardedConfig : Config ℚ :=
  { proxyConfig with proxyProtocol := false, acl := some ⟨["10.0.0.0/8"],["10.1.0.0/16"]⟩ }

def guardedRuntime : Runtime ℚ :=
  { sampleRuntime with config := guardedConfig, router := Router.fromConfig guardedConfig }

theorem acl_meaning_guarded :
    @Validator.validate ℚ _ _ _ visibleAscii (fun _ => false) guardedConfig = .ok () ∧
    Runtime.fromConfig 0 (.ok ()) guardedConfig = .ok guardedRuntime ∧
    ∃ ps, handleOneConnection guardedRuntime unknownStream samplePeer =
      .served samplePeer ps (proxyContext guardedRuntime) ∧
      (∀ ip, aclAllows (proxyContext guardedRuntime) ip = true ↔
        (∀ entry ∈ ["10.1.0.0/16"], ¬Covers entry ip) ∧
          (["10.0.0.0/8"] = [] ∨ ∃ entry ∈ ["10.0.0.0/8"], Covers entry ip)) := by
  have hvalid : @Validator.validate ℚ _ _ _ visibleAscii (fun _ => false) guardedConfig = .ok () := by
    decide +kernel
  have hmeaning := @acl_meaning ℚ (Scheduled UInt8) _ _ _ visibleAscii _ (fun _ => false) guardedConfig
    ⟨["10.0.0.0/8"],["10.1.0.0/16"]⟩ 0 (.ok ()) guardedRuntime hvalid rfl rfl
  exact ⟨hvalid,rfl,_,rfl,(hmeaning.2.1 unknownStream samplePeer samplePeer _ _ rfl).2⟩

end Entries

end Security
end OxiGate
