import Mathlib.Data.Fintype.BigOperators
import Mathlib.Data.Set.Card
import OxiGate.AccessLists

/-! How many addresses an entry of an access list covers, and which entries concern an IPv4 client
whose address is reported in its IPv6 form. -/
namespace OxiGate
namespace Security

open Net RustText

section Mapped

def mappedFront : List UInt8 := List.replicate 10 0++[0xff,0xff]

/-- `::ffff:a.b.c.d`. -/
def mapped (a : Octets 4) : Octets 16 := ⟨mappedFront++a.toList,by simp [mappedFront]⟩

def embedded (x : Octets 16) : Octets 4 := ⟨x.toList.drop 12,by simp⟩

theorem embedded_mapped (a : Octets 4) : embedded (mapped a) = a := Subtype.ext rfl

theorem addressBit_embedded (x : Octets 16) {i : ℕ} (h : 96 ≤ i) :
    addressBit (embedded x) (i-96) = addressBit x i := by
  have hoctet : (i-96)/8+12 = i/8 := by omega
  have hbit : (i-96) % 8 = i % 8 := by omega
  unfold addressBit
  rw [hbit,← hoctet,List.getD_eq_getElem?_getD,List.getD_eq_getElem?_getD,Nat.add_comm]
  show (((x.toList.drop 12)[(i-96)/8]?).getD 0).toNat.testBit _ = _
  rw [List.getElem?_drop]

theorem addressBit_mapped (a b : Octets 4) {i : ℕ} (h : i < 96) :
    addressBit (mapped a) i = addressBit (mapped b) i := by
  have hfront : ∀ c : Octets 4, (mapped c).toList.getD (i/8) 0 = mappedFront.getD (i/8) 0 := by
    intro c
    have hlt : i/8 < mappedFront.length := by
      show i/8 < 12
      omega
    rw [List.getD_eq_getElem?_getD,List.getD_eq_getElem?_getD]
    show ((mappedFront++c.toList)[i/8]?).getD 0 = _
    rw [List.getElem?_append_left hlt]
  unfold addressBit
  rw [hfront a,hfront b]

theorem agreeOn_mapped_iff (x : Octets 16) (a : Octets 4) (prefixLen : ℕ) :
    AgreeOn (min prefixLen 128) x (mapped a) ↔
      AgreeOn (min prefixLen 96) x (mapped (ipv4 0 0 0 0)) ∧ AgreeOn (min (prefixLen-96) 32) (embedded x) a := by
  constructor
  · intro h
    constructor
    · intro i hi
      rw [h i (by omega)]
      exact addressBit_mapped _ _ (by omega)
    · intro i hi
      have hbit := h (i+96) (by omega)
      rw [← addressBit_embedded x (by omega),← addressBit_embedded (mapped a) (by omega),embedded_mapped,
        Nat.add_sub_cancel] at hbit
      exact hbit
  · rintro ⟨hlow,hhigh⟩ i hi
    by_cases hcut : i < 96
    · rw [hlow i (by omega)]
      exact addressBit_mapped _ _ hcut
    · rw [← addressBit_embedded x (by omega),← addressBit_embedded (mapped a) (by omega),embedded_mapped]
      exact hhigh (i-96) (by omega)

instance {n : ℕ} (k : ℕ) (a b : Octets n) : Decidable (AgreeOn k a b) :=
  inferInstanceAs (Decidable (∀ i < k, addressBit a i = addressBit b i))

/-- The IPv4 block an IPv6 entry amounts to for mapped addresses. -/
def IpNet.asV4 (net : IpNet) : Option IpNet :=
  match net.addr with
  | .v4 _ => none
  | .v6 x =>
    if AgreeOn (min net.prefixLen 96) x (mapped (ipv4 0 0 0 0)) then some ⟨.v4 (embedded x),net.prefixLen-96⟩
    else none

def IpNet.isV4 (net : IpNet) : Bool :=
  match net.addr with
  | .v4 _ => true
  | .v6 _ => false

theorem contains_mapped (net : IpNet) (a : Octets 4) :
    net.contains (.v6 (mapped a)) = net.asV4.any (·.contains (.v4 a)) := by
  rw [Bool.eq_iff_iff,contains_iff]
  rcases net with ⟨x | x,prefixLen⟩
  · simp [InBlock,IpNet.asV4]
  · simp only [InBlock,IpNet.asV4,agreeOn_mapped_iff]
    split
    · rename_i hlow
      rw [Option.any_some,contains_iff]
      exact and_iff_right hlow
    · rename_i hlow
      simp [hlow]

theorem contains_v4 (net : IpNet) (a : Octets 4) :
    net.contains (.v4 a) = (net.isV4 && net.contains (.v4 a)) := by
  rcases net with ⟨x | x,prefixLen⟩ <;> simp [IpNet.contains,IpNet.isV4]

def judge (restricted : Bool) (allow deny : List IpNet) (ip : IpAddr) : Bool :=
  !deny.any (·.contains ip) && (!restricted || allow.any (·.contains ip))

theorem isAllowed_eq_judge (acl : Acl) (ip : IpAddr) :
    acl.isAllowed ip = judge (!acl.allow.isEmpty) acl.allow acl.deny ip := by
  unfold Acl.isAllowed judge
  cases acl.deny.any (·.contains ip) <;> cases acl.allow.isEmpty <;> simp

/-- An IPv4 client is judged by the IPv4 entries, and under its mapped address by the IPv6 entries,
each taken for the IPv4 block it leaves of the mapped addresses. -/
theorem mapped_judged (acl : Acl) (a : Octets 4) :
    let restricted := !acl.allow.isEmpty
    let plain := judge restricted (acl.allow.filter (·.isV4)) (acl.deny.filter (·.isV4)) (.v4 a)
    let ofMapped := judge restricted (acl.allow.filterMap (·.asV4)) (acl.deny.filterMap (·.asV4)) (.v4 a)
    acl.isAllowed (.v4 a) = plain ∧ acl.isAllowed (.v6 (mapped a)) = ofMapped ∧
      (acl.isAllowed (.v6 (mapped a)) = acl.isAllowed (.v4 a) ↔ ofMapped = plain) := by
  intro restricted plain ofMapped
  have hplain : ∀ nets : List IpNet, nets.any (·.contains (.v4 a)) =
      (nets.filter (·.isV4)).any (·.contains (.v4 a)) := by
    intro nets
    rw [List.any_filter]
    congr 1
    funext net
    exact contains_v4 net a
  have hmapped : ∀ nets : List IpNet, nets.any (·.contains (.v6 (mapped a))) =
      (nets.filterMap (·.asV4)).any (·.contains (.v4 a)) := by
    intro nets
    rw [List.any_filterMap]
    congr 1
    funext net
    rw [contains_mapped]
    cases net.asV4 <;> rfl
  have h₁ : acl.isAllowed (.v4 a) = plain := by
    rw [isAllowed_eq_judge,judge,hplain acl.deny,hplain acl.allow]
    rfl
  have h₂ : acl.isAllowed (.v6 (mapped a)) = ofMapped := by
    rw [isAllowed_eq_judge,judge,hmapped acl.deny,hmapped acl.allow]
    rfl
  refine ⟨h₁,h₂,?_⟩
  rw [h₁,h₂]

/-- A denied client is let in under its mapped address. -/
theorem mapped_escapes_deny :
    ∃ acl, Acl.fromConfig [] ["10.0.0.0/8"] = .ok acl ∧ acl.isAllowed (.v4 (ipv4 10 1 2 3)) = false ∧
      acl.isAllowed (.v6 (mapped (ipv4 10 1 2 3))) = true :=
  ⟨⟨[],[⟨.v4 (ipv4 10 0 0 0),8⟩]⟩,by decide +kernel,by decide +kernel,by decide +kernel⟩

end Mapped

section Size

theorem addressBit_injective {n : ℕ} {a b : Octets n} (h : ∀ i < 8*n, addressBit a i = addressBit b i) : a = b := by
  apply List.Vector.ext
  intro k
  apply UInt8.toNat_inj.mp
  apply Nat.eq_of_testBit_eq
  intro j
  have hget : ∀ c : Octets n, c.toList.getD k.val 0 = c.get k := by
    intro c
    rw [List.Vector.get_eq_get_toList]
    simp [List.getD_eq_getElem?_getD]
  by_cases hj : j < 8
  · have hbit := h (8*k.val+(7-j)) (by omega)
    have hoctet : (8*k.val+(7-j))/8 = k.val := by omega
    have hplace : 7-(8*k.val+(7-j)) % 8 = j := by omega
    unfold addressBit at hbit
    rwa [hoctet,hplace,hget,hget] at hbit
  · have hlarge : ∀ c : UInt8, c.toNat.testBit j = false := by
      intro c
      apply Nat.testBit_lt_two_pow
      exact c.toNat_lt.trans_le (Nat.pow_le_pow_right (by omega) (by omega : 8 ≤ j))
    rw [hlarge,hlarge]

theorem ncard_agree {m k : ℕ} (hk : k ≤ m) (g : Fin m → Bool) :
    {f : Fin m → Bool | ∀ i : Fin m, i.val < k → f i = g i}.ncard = 2^(m-k) := by
  have hpi : {f : Fin m → Bool | ∀ i : Fin m, i.val < k → f i = g i} =
      ↑(Fintype.piFinset fun i : Fin m => if i.val < k then {g i} else Finset.univ) := by
    ext f
    simp only [Set.mem_ofPred_eq,Finset.mem_coe,Fintype.mem_piFinset]
    apply forall_congr'
    intro i
    by_cases hi : i.val < k <;> simp [hi]
  have hfree : (Finset.univ.filter fun i : Fin m => ¬i.val < k).card = m-k := by
    have hfixed : (Finset.univ.filter fun i : Fin m => i.val < k).card = k := by
      rw [Fin.card_filter_val_lt,Nat.min_eq_right hk]
    have hsum := Finset.card_filter_add_card_filter_not (s := (Finset.univ : Finset (Fin m))) fun i => i.val < k
    rw [hfixed,Finset.card_univ,Fintype.card_fin] at hsum
    omega
  have hcard : ∀ i : Fin m, (if i.val < k then ({g i} : Finset Bool) else Finset.univ).card =
      if i.val < k then 1 else 2 := by
    intro i
    by_cases hi : i.val < k <;> simp [hi]
  rw [hpi,Set.ncard_coe_finset,Fintype.card_piFinset]
  simp only [hcard]
  rw [Finset.prod_ite,Finset.prod_const,Finset.prod_const,one_pow,one_mul,hfree]

def octetEquiv : UInt8 ≃ Fin 256 where
  toFun := UInt8.toFin
  invFun := UInt8.ofFin
  left_inv _ := rfl
  right_inv _ := rfl

theorem ncard_agreeOn {n k : ℕ} (hk : k ≤ 8*n) (a : Octets n) :
    {b : Octets n | AgreeOn k a b}.ncard = 2^(8*n-k) := by
  let bits : Octets n → Fin (8*n) → Bool := fun b i => addressBit b i.val
  have hinj : Function.Injective bits := by
    intro b c hbc
    exact addressBit_injective fun i hi => congrFun hbc ⟨i,hi⟩
  let _ : Fintype UInt8 := Fintype.ofEquiv (Fin 256) octetEquiv.symm
  have hoctet : Fintype.card UInt8 = 2^8 := by
    rw [Fintype.card_congr octetEquiv,Fintype.card_fin]
    rfl
  have hcard : Fintype.card (Octets n) = Fintype.card (Fin (8*n) → Bool) := by
    rw [card_vector,hoctet,Fintype.card_fun,Fintype.card_fin,Fintype.card_bool,Nat.pow_mul]
  have hbij : Function.Bijective bits := (Fintype.bijective_iff_injective_and_card bits).mpr ⟨hinj,hcard⟩
  have himage : bits '' {b | AgreeOn k a b} = {f | ∀ i : Fin (8*n), i.val < k → f i = bits a i} := by
    ext f
    constructor
    · rintro ⟨b,hb,rfl⟩ i hi
      exact (hb i.val hi).symm
    · intro hf
      obtain ⟨b,rfl⟩ := hbij.2 f
      exact ⟨b,fun i hi => (hf ⟨i,hi.trans_le hk⟩ hi).symm,rfl⟩
  rw [← Set.ncard_image_of_injective _ hinj,himage,ncard_agree hk]

theorem ncard_inBlock {addr : IpAddr} {prefixLen : ℕ} (h : prefixLen ≤ addrWidth addr) :
    {ip | InBlock addr ip prefixLen}.ncard = 2^(addrWidth addr-prefixLen) := by
  cases addr with
  | v4 a =>
    have hmin : min prefixLen 32 = prefixLen := Nat.min_eq_left h
    have hblock : {ip | InBlock (.v4 a) ip prefixLen} = IpAddr.v4 '' {b | AgreeOn prefixLen a b} := by
      ext ip
      cases ip with
      | v4 b => simp [InBlock,hmin]
      | v6 b => simp [InBlock]
    rw [hblock,Set.ncard_image_of_injective _ fun _ _ => IpAddr.v4.inj]
    exact ncard_agreeOn h a
  | v6 a =>
    have hmin : min prefixLen 128 = prefixLen := Nat.min_eq_left h
    have hblock : {ip | InBlock (.v6 a) ip prefixLen} = IpAddr.v6 '' {b | AgreeOn prefixLen a b} := by
      ext ip
      cases ip with
      | v4 b => simp [InBlock]
      | v6 b => simp [InBlock,hmin]
    rw [hblock,Set.ncard_image_of_injective _ fun _ _ => IpAddr.v6.inj]
    exact ncard_agreeOn h a

/-- An address, or an address and a length within its width; the block built from it has the
addresses that agree in so many leading bits, and as many as that leaves. -/
def Meaningful (s : String) : Prop :=
  ∃ addr prefixLen net, Denotes s addr prefixLen ∧ prefixLen ≤ addrWidth addr ∧ parseCidr s = .ok net ∧
    {ip | net.contains ip = true} = {ip | InBlock addr ip prefixLen} ∧
    {ip | net.contains ip = true}.ncard = 2^(addrWidth addr-prefixLen)

theorem Denotes.unique {s : String} {addr addr' : IpAddr} {prefixLen prefixLen' : ℕ}
    (h : Denotes s addr prefixLen) (h' : Denotes s addr' prefixLen') : addr' = addr ∧ prefixLen' = prefixLen := by
  have hparse : parseCidr s = .ok ⟨addr,prefixLen⟩ := parseCidr_eq_ok.mpr h
  have hparse' : parseCidr s = .ok ⟨addr',prefixLen'⟩ := parseCidr_eq_ok.mpr h'
  rw [hparse] at hparse'
  cases hparse'
  exact ⟨rfl,rfl⟩

theorem meaningful_of_denotes {s : String} {addr : IpAddr} {prefixLen : ℕ} (h : Denotes s addr prefixLen)
    (hle : prefixLen ≤ addrWidth addr) : Meaningful s := by
  have hblock : {ip | IpNet.contains ⟨addr,prefixLen⟩ ip = true} = {ip | InBlock addr ip prefixLen} := by
    ext ip
    exact contains_iff ⟨addr,prefixLen⟩ ip
  refine ⟨addr,prefixLen,⟨addr,prefixLen⟩,h,hle,parseCidr_eq_ok.mpr h,hblock,?_⟩
  rw [hblock,ncard_inBlock hle]

theorem validateCidr_iff_denotes {s : String} :
    Validator.validateCidr s = .ok () ↔ ∃ addr prefixLen, Denotes s addr prefixLen ∧ prefixLen ≤ 128 := by
  rw [Validator.validateCidr_eq_ok]
  unfold Validator.CidrAccepted Denotes
  rcases splitOnce '/' s.toList with _ | ⟨ip,pfx⟩
  · constructor
    · rintro ⟨addr,haddr⟩
      exact ⟨addr,_,⟨haddr,rfl⟩,by cases addr <;> simp [addrWidth]⟩
    · rintro ⟨addr,prefixLen,⟨haddr,-⟩,-⟩
      exact ⟨addr,haddr⟩
  · constructor
    · rintro ⟨⟨addr,haddr⟩,prefixLen,hlen,hle⟩
      exact ⟨addr,prefixLen,⟨haddr,hlen⟩,hle⟩
    · rintro ⟨addr,prefixLen,⟨haddr,hlen⟩,hle⟩
      exact ⟨⟨addr,haddr⟩,prefixLen,hlen,hle⟩

/-- An accepted entry means something unless it gives an IPv4 address a length of 33 to 128. -/
theorem validateCidr_meaningful_iff (s : String) :
    (Validator.validateCidr s = .ok () → Meaningful s) ↔
      ¬∃ a prefixLen, Denotes s (.v4 a) prefixLen ∧ 32 < prefixLen ∧ prefixLen ≤ 128 := by
  rw [validateCidr_iff_denotes]
  constructor
  · rintro h ⟨a,prefixLen,hdenotes,hlow,hhigh⟩
    obtain ⟨addr,prefixLen',-,hdenotes',hle,-⟩ := h ⟨_,prefixLen,hdenotes,hhigh⟩
    obtain ⟨rfl,rfl⟩ := hdenotes.unique hdenotes'
    simp only [addrWidth] at hle
    omega
  · rintro hnot ⟨addr,prefixLen,hdenotes,hle⟩
    apply meaningful_of_denotes hdenotes
    cases addr with
    | v4 a =>
      by_contra hlow
      exact hnot ⟨a,prefixLen,hdenotes,not_le.mp hlow,hle⟩
    | v6 a => exact hle

/-- A length of 33 is accepted for an IPv4 address, and stands for one host. -/
theorem cidr_beyond_width :
    Validator.validateCidr "10.0.0.0/33" = .ok () ∧ Denotes "10.0.0.0/33" (.v4 (ipv4 10 0 0 0)) 33 ∧
      ∃ net, parseCidr "10.0.0.0/33" = .ok net ∧ net.contains (.v4 (ipv4 10 0 0 0)) = true ∧
        net.contains (.v4 (ipv4 10 0 0 1)) = false := by
  have hparse : parseCidr "10.0.0.0/33" = .ok ⟨.v4 (ipv4 10 0 0 0),33⟩ := by decide +kernel
  exact ⟨by decide +kernel,parseCidr_eq_ok.mp hparse,_,hparse,by decide +kernel,by decide +kernel⟩

end Size

end Security
end OxiGate
