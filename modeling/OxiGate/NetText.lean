import OxiGate.Net

/-! Addresses are read back as they are printed. Each reader is followed over the text a printer
writes, with whatever text comes after it. -/
namespace OxiGate
namespace Net

open RustText

section Digits

variable {radix : ℕ}

theorem toDigit_digitChar (hradix : radix ≤ 16) {d : ℕ} (hd : d < radix) :
    toDigit radix d.digitChar = some d := by
  have h16 : d < 16 := by omega
  interval_cases d <;> simp [toDigit,Nat.digitChar,hd]

/-- The value of a text of digits, read on from `acc`. -/
def digitsFrom (radix acc : ℕ) (digits : Text) : ℕ :=
  digits.foldl (fun acc c => acc*radix+(toDigit radix c).getD 0) acc

theorem digitsFrom_toDigits (hone : 1 < radix) (hradix : radix ≤ 16) (n : ℕ) :
    digitsFrom radix 0 (Nat.toDigits radix n) = n := by
  induction n using Nat.strong_induction_on with
  | _ n ih =>
    rw [Nat.toDigits_eq_if hone]
    split
    · rename_i hlt
      simp [digitsFrom,toDigit_digitChar hradix hlt]
    · rename_i hge
      have hmod : n % radix < radix := Nat.mod_lt n (by omega)
      have hdiv := ih (n/radix) (Nat.div_lt_self (by omega) hone)
      unfold digitsFrom at hdiv ⊢
      rw [List.foldl_append,hdiv]
      simpa [toDigit_digitChar hradix hmod] using Nat.div_add_mod' n radix

theorem exists_digit_of_mem (hone : 1 < radix) {n : ℕ} {c : Char} (h : c ∈ Nat.toDigits radix n) :
    ∃ d < radix, c = d.digitChar := by
  induction n using Nat.strong_induction_on with
  | _ n ih =>
    rw [Nat.toDigits_eq_if hone] at h
    split at h
    · rename_i hlt
      exact ⟨n,hlt,List.mem_singleton.mp h⟩
    · rcases List.mem_append.mp h with h | h
      · exact ih (n/radix) (Nat.div_lt_self (by omega) hone) h
      · exact ⟨n % radix,Nat.mod_lt n (by omega),List.mem_singleton.mp h⟩

theorem isSome_toDigit_of_mem (hone : 1 < radix) (hradix : radix ≤ 16) {n : ℕ} {c : Char}
    (h : c ∈ Nat.toDigits radix n) : (toDigit radix c).isSome = true := by
  obtain ⟨d,hd,rfl⟩ := exists_digit_of_mem hone h
  rw [toDigit_digitChar hradix hd]
  rfl

/-- Only zero is printed with a leading zero. -/
theorem head?_toDigits_ne (hone : 1 < radix) {n : ℕ} (hn : 0 < n) :
    (Nat.toDigits radix n).head? ≠ some '0' := by
  induction n using Nat.strong_induction_on with
  | _ n ih =>
    rw [Nat.toDigits_eq_if hone]
    split
    · simpa using Nat.ne_of_gt hn
    · rename_i hge
      rw [List.head?_append_of_ne_nil _ Nat.toDigits_ne_nil]
      exact ih (n/radix) (Nat.div_lt_self hn hone) (Nat.div_pos (by omega) (by omega))

/-- No digit begins the text. -/
def Stops (radix : ℕ) (text : Text) : Prop := ∀ c ∈ text.head?, toDigit radix c = none

theorem takeWhile_digits (hone : 1 < radix) (hradix : radix ≤ 16) (n : ℕ) {rest : Text}
    (hrest : Stops radix rest) :
    (Nat.toDigits radix n++rest).takeWhile (fun c => (toDigit radix c).isSome) = Nat.toDigits radix n := by
  rw [List.takeWhile_append_of_pos fun c hc => isSome_toDigit_of_mem hone hradix hc]
  have hnil : rest.takeWhile (fun c => (toDigit radix c).isSome) = [] := by
    cases rest with
    | nil => rfl
    | cons c cs => simp [hrest c rfl]
  rw [hnil,List.append_nil]

theorem readNumber_toDigits (hone : 1 < radix) (hradix : radix ≤ 16) {maxDigits bound n : ℕ}
    (allowZeroPrefix : Bool) (hmax : 0 < maxDigits) (hlen : n < radix^maxDigits) (hbound : n < bound)
    {rest : Text} (hrest : Stops radix rest) :
    readNumber radix maxDigits allowZeroPrefix bound (Nat.toDigits radix n++rest) = some (n,rest) := by
  have hdigits := takeWhile_digits hone hradix n hrest
  have hvalue := digitsFrom_toDigits hone hradix n
  have hpos : (Nat.toDigits radix n).length ≠ 0 := Nat.ne_of_gt Nat.length_toDigits_pos
  have hle : ¬ maxDigits < (Nat.toDigits radix n).length :=
    Nat.not_lt.mpr ((Nat.length_toDigits_le_iff hone hmax).mpr hlen)
  have hzero : ¬ ((Nat.toDigits radix n++rest).head? = some '0' ∧ 1 < (Nat.toDigits radix n).length) := by
    rintro ⟨hhead,hlong⟩
    rw [List.head?_append_of_ne_nil _ Nat.toDigits_ne_nil] at hhead
    rcases Nat.eq_zero_or_pos n with rfl | hn
    · simp at hlong
    · exact head?_toDigits_ne hone hn hhead
  unfold digitsFrom at hvalue
  simp only [readNumber,hdigits,hvalue]
  rw [if_neg (by omega),if_neg (by simpa using fun _ => not_and.mp hzero),if_pos hbound]
  simp

theorem parseDigits_eq_ok {max acc : ℕ} {digits : Text}
    (hdigits : ∀ c ∈ digits, (toDigit 10 c).isSome = true) (hmax : digitsFrom 10 acc digits ≤ max) :
    parseDigits max acc digits = .ok (digitsFrom 10 acc digits) := by
  have hgrows : ∀ (text : Text) (acc : ℕ), acc ≤ digitsFrom 10 acc text := by
    intro text
    induction text with
    | nil => exact fun acc => le_rfl
    | cons c cs ih =>
      intro acc
      have hstep : acc ≤ acc*10+(toDigit 10 c).getD 0 := by omega
      exact hstep.trans (ih _)
  induction digits generalizing acc with
  | nil => rfl
  | cons c cs ih =>
    obtain ⟨d,hd⟩ := Option.isSome_iff_exists.mp (hdigits c List.mem_cons_self)
    have hstep : digitsFrom 10 acc (c::cs) = digitsFrom 10 (acc*10+d) cs := by simp [digitsFrom,hd]
    rw [hstep] at hmax ⊢
    have hle := hgrows cs (acc*10+d)
    rw [parseDigits,hd]
    dsimp only
    rw [if_neg (by omega)]
    exact ih (fun c' hc' => hdigits c' (List.mem_cons_of_mem c hc')) hmax

/-- An unsigned integer is parsed back as it is printed. -/
theorem parseUint_decimal {max n : ℕ} (hn : n ≤ max) : parseUint max (decimal n) = .ok n := by
  have hvalue := digitsFrom_toDigits (by omega : 1 < 10) (by omega) n
  have hdigits : ∀ c ∈ Nat.toDigits 10 n, (toDigit 10 c).isSome = true :=
    fun c hc => isSome_toDigit_of_mem (by omega) (by omega) hc
  have hparse : parseDigits max 0 (Nat.toDigits 10 n) = .ok (digitsFrom 10 0 (Nat.toDigits 10 n)) :=
    parseDigits_eq_ok hdigits (by omega)
  rw [hvalue] at hparse
  have hplus : (Nat.toDigits 10 n).head? ≠ some '+' := by
    intro hhead
    have hsome := hdigits '+' (List.mem_of_mem_head? hhead)
    revert hsome
    decide
  unfold decimal
  cases hcs : Nat.toDigits 10 n with
  | nil => exact absurd hcs Nat.toDigits_ne_nil
  | cons c cs =>
    rw [hcs] at hparse hplus
    unfold parseUint
    split
    · simp_all
    · simp_all
    · simp_all
    · exact hparse

end Digits

section Ipv4

theorem exists_ipv4 (octets : Octets 4) : ∃ a b c d, octets = ipv4 a b c d := by
  rcases octets with ⟨l,hl⟩
  obtain ⟨a,b,c,d,rfl⟩ := List.length_eq_four.mp hl
  exact ⟨a,b,c,d,rfl⟩

theorem displayIpv4_ipv4 (a b c d : UInt8) : displayIpv4 (ipv4 a b c d) =
    decimal a.toNat++ '.'::(decimal b.toNat++ '.'::(decimal c.toNat++ '.'::decimal d.toNat)) := by
  simp [displayIpv4,ipv4,List.intercalate]

theorem stops_cons {radix : ℕ} {c : Char} (h : toDigit radix c = none) (text : Text) : Stops radix (c::text) := by
  intro c' hc'
  cases hc'
  exact h

theorem stops_nil (radix : ℕ) : Stops radix [] := by
  intro c hc
  cases hc

theorem readNumber_octet (a : UInt8) {rest : Text} (hrest : Stops 10 rest) :
    readNumber 10 3 false 256 (decimal a.toNat++rest) = some (a.toNat,rest) := by
  have hlt := a.toNat_lt
  exact readNumber_toDigits (by omega) (by omega) false (by omega) (by omega) (by omega) hrest

theorem readOctet_zero (a : UInt8) {rest : Text} (hrest : Stops 10 rest) :
    readOctet 0 (decimal a.toNat++rest) = some (a,rest) := by
  simp [readOctet,readSeparator,readNumber_octet a hrest]

theorem readOctet_succ (index : ℕ) (a : UInt8) {rest : Text} (hrest : Stops 10 rest) :
    readOctet (index+1) ('.'::(decimal a.toNat++rest)) = some (a,rest) := by
  simp [readOctet,readSeparator,readGivenChar,readNumber_octet a hrest]

theorem readIpv4Addr_display (octets : Octets 4) {rest : Text} (hrest : Stops 10 rest) :
    readIpv4Addr (displayIpv4 octets++rest) = some (octets,rest) := by
  obtain ⟨a,b,c,d,rfl⟩ := exists_ipv4 octets
  have hdot : ∀ text : Text, Stops 10 ('.'::text) := stops_cons (by decide)
  rw [displayIpv4_ipv4]
  simp only [List.append_assoc,List.cons_append]
  simp only [readIpv4Addr,readOctet_zero a (hdot _),readOctet_succ 0 b (hdot _),readOctet_succ 1 c (hdot _),
    readOctet_succ 2 d hrest,bind,Option.bind,pure]

theorem mem_of_readNumber {radix maxDigits bound value : ℕ} {allowZeroPrefix : Bool} {text rest : Text}
    (h : readNumber radix maxDigits allowZeroPrefix bound text = some (value,rest)) : rest ⊆ text := by
  simp only [readNumber] at h
  split_ifs at h
  cases h
  exact List.drop_subset _ _

theorem readIpv4Addr_of_no_dot {text : Text} (h : '.' ∉ text) : readIpv4Addr text = none := by
  have hsecond : ∀ rest : Text, rest ⊆ text → readOctet 1 rest = none := by
    intro rest hsub
    have hgiven : readGivenChar '.' rest = none := by
      cases rest with
      | nil => rfl
      | cons c cs =>
        have hne : c ≠ '.' := fun hc => h (hc ▸ hsub List.mem_cons_self)
        simp [readGivenChar,hne]
    simp [readOctet,readSeparator,hgiven]
  cases hfirst : readOctet 0 text with
  | none => simp [readIpv4Addr,hfirst]
  | some r =>
    obtain ⟨⟨value,rest⟩,hnumber,rfl⟩ := Option.map_eq_some_iff.mp hfirst
    have hsub : rest ⊆ text := mem_of_readNumber hnumber
    simp [readIpv4Addr,hfirst,hsecond rest hsub]

end Ipv4

section Ipv6

/-- Groups of an address, each after a colon. -/
def groupsText (groups : List UInt16) : Text := groups.flatMap fun g => ':'::Nat.toDigits 16 g.toNat

theorem displaySegments_cons (g : UInt16) (groups : List UInt16) :
    displaySegments (g::groups) = Nat.toDigits 16 g.toNat++groupsText groups := by
  induction groups generalizing g with
  | nil => simp [displaySegments,groupsText]
  | cons g' groups ih =>
    have hnext := ih g'
    simp only [displaySegments,groupsText,List.map_cons,List.flatMap_cons] at hnext ⊢
    rw [List.intercalate_cons_cons,hnext]
    simp

/-- What is printed for groups when `index` groups stand before them. -/
def groupsFrom (index : ℕ) (groups : List UInt16) : Text :=
  if index = 0 then displaySegments groups else groupsText groups

theorem groupsFrom_cons (index : ℕ) (g : UInt16) (groups : List UInt16) : groupsFrom index (g::groups) =
    (if index = 0 then [] else [':'])++(Nat.toDigits 16 g.toNat++groupsFrom (index+1) groups) := by
  by_cases h : index = 0
  · simp [groupsFrom,h,displaySegments_cons]
  · simp [groupsFrom,h,groupsText]

/-- Reading another group fails: the text is at its end, or goes on with two colons. -/
def NoGroup (text : Text) : Prop := text = [] ∨ ∃ more, text = ':':: ':'::more

theorem NoGroup.readNumber {text : Text} (h : NoGroup text) (index : ℕ) :
    readSeparator ':' index (readNumber 16 4 true 65536) text = none := by
  have hcolon : ∀ more : Text, Net.readNumber 16 4 true 65536 (':'::more) = none := by
    intro more
    have hdigit : toDigit 16 ':' = none := by decide
    simp [Net.readNumber,hdigit]
  have hnil : Net.readNumber 16 4 true 65536 [] = none := by simp [Net.readNumber]
  rcases h with rfl | ⟨more,rfl⟩
  · simp [readSeparator,readGivenChar,hnil]
  · by_cases hindex : 0 < index
    · simp [readSeparator,hindex,readGivenChar,hcolon]
    · simp [readSeparator,hindex,hcolon]

theorem readSeparator_ipv4_of_no_dot {text : Text} (h : '.' ∉ text) (index : ℕ) :
    readSeparator ':' index readIpv4Addr text = none := by
  by_cases hindex : 0 < index
  · simp only [readSeparator,hindex,if_true]
    cases text with
    | nil => rfl
    | cons c cs =>
      by_cases hc : c = ':'
      · simpa [readGivenChar,hc] using readIpv4Addr_of_no_dot fun hmem => h (List.mem_cons_of_mem c hmem)
      · simp [readGivenChar,hc]
  · simpa [readSeparator,hindex] using readIpv4Addr_of_no_dot h

theorem stops_groupsText (groups : List UInt16) {rest : Text} (hrest : NoGroup rest) :
    Stops 16 (groupsText groups++rest) := by
  have hcolon : toDigit 16 ':' = none := by decide
  cases groups with
  | nil =>
    rcases hrest with rfl | ⟨more,rfl⟩
    · exact stops_nil 16
    · exact stops_cons hcolon _
  | cons g groups => exact stops_cons hcolon _

/-- Printed groups are read back, up to the text at which no further group is found. -/
theorem readGroups_groupsFrom (left index : ℕ) (groups : List UInt16) {rest : Text} (hrest : NoGroup rest)
    (hdot : '.' ∉ groupsFrom index groups++rest) (hlen : groups.length ≤ left) :
    readGroups left index (groupsFrom index groups++rest) = (groups,false,rest) := by
  induction groups generalizing left index with
  | nil =>
    have htext : groupsFrom index []++rest = rest := by
      by_cases h : index = 0
      · simp [groupsFrom,h,displaySegments]
      · simp [groupsFrom,h,groupsText]
    rw [htext] at hdot ⊢
    cases left with
    | zero => rfl
    | succ left => simp [readGroups,readSeparator_ipv4_of_no_dot hdot,hrest.readNumber]
  | cons g groups ih =>
    cases left with
    | zero => simp at hlen
    | succ left =>
      have hlt := g.toNat_lt
      have htail : Stops 16 (groupsFrom (index+1) groups++rest) := by
        simpa [groupsFrom] using stops_groupsText groups hrest
      have hnumber : readNumber 16 4 true 65536 (Nat.toDigits 16 g.toNat++(groupsFrom (index+1) groups++rest)) =
          some (g.toNat,groupsFrom (index+1) groups++rest) :=
        readNumber_toDigits (by omega) (by omega) true (by omega) (by omega) (by omega) htail
      have hread : readSeparator ':' index (readNumber 16 4 true 65536) (groupsFrom index (g::groups)++rest) =
          some (g.toNat,groupsFrom (index+1) groups++rest) := by
        rw [groupsFrom_cons]
        by_cases hindex : index = 0
        · simpa [hindex,readSeparator] using hnumber
        · simpa [hindex,Nat.pos_of_ne_zero hindex,readSeparator,readGivenChar] using hnumber
      have hdot' : '.' ∉ groupsFrom (index+1) groups++rest := by
        rw [groupsFrom_cons] at hdot
        intro hmem
        exact hdot (by simp only [List.append_assoc]; exact List.mem_append_right _ (List.mem_append_right _ hmem))
      have hrec := ih left (index+1) hdot' (by simpa using hlen)
      simp [readGroups,readSeparator_ipv4_of_no_dot hdot,hread,hrec]

def Span.Zero (groups : List UInt16) (span : Span) : Prop :=
  ∀ j, span.start ≤ j → j < span.start+span.len → groups[j]? = some 0

theorem longestZeroes_zero {all : List UInt16} {segments : List UInt16} {i : ℕ} {current longest : Span}
    (hsegments : segments = all.drop i) (hcurrent : current.Zero all)
    (hend : current.len = 0 ∨ current.start+current.len = i) (hlongest : longest.Zero all) :
    (longestZeroes segments i current longest).Zero all := by
  induction segments generalizing i current longest with
  | nil => exact hlongest
  | cons segment segments ih =>
    have hget : all[i]? = some segment := by
      have hhead := congrArg List.head? hsegments
      rw [List.head?_drop] at hhead
      exact hhead.symm
    have hdrop : segments = all.drop (i+1) := by
      have htail := congrArg List.tail hsegments
      rwa [List.tail_drop] at htail
    rw [longestZeroes]
    by_cases hzero : segment = 0
    · rw [if_pos hzero]
      have hgrown : Span.Zero all ⟨if current.len = 0 then i else current.start,current.len+1⟩ := by
        intro j hj hj'
        dsimp only at hj hj'
        by_cases hlast : j = i
        · rw [hlast,hget,hzero]
        · rcases hend with hnone | hend
          · simp only [hnone,if_true] at hj hj'
            omega
          · by_cases hnone : current.len = 0
            · simp only [hnone,if_true] at hj hj'
              omega
            · rw [if_neg hnone] at hj hj'
              exact hcurrent j hj (by omega)
      apply ih hdrop hgrown
      · right
        dsimp only
        split <;> omega
      · dsimp only
        split
        · exact hgrown
        · exact hlongest
    · rw [if_neg hzero]
      apply ih hdrop _ (Or.inl rfl) hlongest
      intro j hj hj'
      dsimp only at hj hj'
      omega

theorem longestZeroes_ipv6Segments (octets : Octets 16) :
    (longestZeroes (ipv6Segments octets) 0 ⟨0,0⟩ ⟨0,0⟩).Zero (ipv6Segments octets) := by
  have hempty : Span.Zero (ipv6Segments octets) ⟨0,0⟩ := fun j _ hj => absurd hj (Nat.not_lt_zero j)
  exact longestZeroes_zero rfl hempty (Or.inl rfl) hempty

theorem split_at_zeroes {groups : List UInt16} {span : Span} (hlen : 0 < span.len) (hzero : span.Zero groups) :
    span.start+span.len ≤ groups.length ∧
    groups = groups.take span.start++List.replicate span.len 0++groups.drop (span.start+span.len) := by
  have hle : span.start+span.len ≤ groups.length := by
    have hlast := hzero (span.start+span.len-1) (by omega) (by omega)
    have hlt := (List.getElem?_eq_some_iff.mp hlast).1
    omega
  have hmiddle : (groups.drop span.start).take span.len = List.replicate span.len 0 := by
    apply List.ext_getElem?
    intro j
    by_cases hj : j < span.len
    · rw [List.getElem?_take_of_lt hj,List.getElem?_drop,hzero (span.start+j) (by omega) (by omega)]
      simp [hj]
    · rw [List.getElem?_eq_none (by simp; omega),List.getElem?_eq_none (by simp; omega)]
  refine ⟨hle,?_⟩
  rw [← hmiddle,← List.drop_drop,List.append_assoc,List.take_append_drop,List.take_append_drop]

@[simp] theorem length_ipv6Segments (octets : Octets 16) : (ipv6Segments octets).length = 8 := by
  simp [ipv6Segments]

theorem ipv6OfSegments_ipv6Segments (octets : Octets 16) : ipv6OfSegments (ipv6Segments octets) = octets := by
  apply List.Vector.ext
  intro i
  have hhalf : i.val/2 < 8 := by omega
  have hsegment : (ipv6Segments octets).getD (i.val/2) 0 =
      fromBeBytes (octets.get ⟨2*(i.val/2),by omega⟩) (octets.get ⟨2*(i.val/2)+1,by omega⟩) := by
    simp [ipv6Segments,hhalf]
  have hvalue : ∀ hi lo : UInt8, (fromBeBytes hi lo).toNat = hi.toNat*256+lo.toNat := by
    intro hi lo
    have h₁ := hi.toNat_lt
    have h₂ := lo.toNat_lt
    simp only [fromBeBytes,UInt16.toNat_ofNat']
    omega
  simp only [ipv6OfSegments,List.Vector.get_ofFn,hsegment,hvalue]
  rcases Nat.mod_two_eq_zero_or_one i.val with heven | hodd
  · have hindex : (⟨2*(i.val/2),by omega⟩ : Fin 16) = i := Fin.ext (by simp; omega)
    rw [if_pos heven,hindex]
    apply UInt8.toNat_inj.mp
    have h₁ := (octets.get i).toNat_lt
    have h₂ := (octets.get ⟨2*(i.val/2)+1,by omega⟩).toNat_lt
    simp only [UInt8.toNat_ofNat']
    omega
  · have hindex : (⟨2*(i.val/2)+1,by omega⟩ : Fin 16) = i := Fin.ext (by simp; omega)
    rw [if_neg (by omega),hindex]
    apply UInt8.toNat_inj.mp
    have h₁ := (octets.get i).toNat_lt
    simp only [UInt8.toNat_ofNat']
    omega

theorem readIpv4Addr_colon (text : Text) : readIpv4Addr (':'::text) = none := by
  have hdigit : toDigit 10 ':' = none := by decide
  simp [readIpv4Addr,readOctet,readSeparator,readNumber,hdigit]

theorem readGroups_mapped (octets : Octets 4) : readGroups 7 0 ("ffff:".toList++displayIpv4 octets) =
    ([0xffff,fromBeBytes (octets.get 0) (octets.get 1),fromBeBytes (octets.get 2) (octets.get 3)],true,[]) := by
  have hfirst : readIpv4Addr ("ffff:".toList++displayIpv4 octets) = none := by
    have hdigit : toDigit 10 'f' = none := by decide
    simp [readIpv4Addr,readOctet,readSeparator,readNumber,hdigit]
  have hcolon : toDigit 16 ':' = none := by decide
  have hnumber : readNumber 16 4 true 65536 ("ffff:".toList++displayIpv4 octets) =
      some (65535,':'::displayIpv4 octets) :=
    readNumber_toDigits (n := 65535) (by omega) (by omega) true (by omega) (by omega) (by omega) (stops_cons hcolon _)
  have hsecond : readIpv4Addr (displayIpv4 octets) = some (octets,[]) := by
    simpa using readIpv4Addr_display octets (stops_nil 10)
  rw [readGroups]
  simp only [readSeparator,hfirst,hnumber,Nat.lt_irrefl,if_false,if_true,Nat.zero_lt_succ]
  simp [readGroups,readSeparator,readGivenChar,hsecond]

theorem no_dot_groupsText (groups : List UInt16) : '.' ∉ groupsText groups := by
  intro hmem
  obtain ⟨g,-,hg⟩ := List.mem_flatMap.mp hmem
  rcases List.mem_cons.mp hg with hdot | hdigit
  · exact absurd hdot (by decide)
  · obtain ⟨d,hd,heq⟩ := exists_digit_of_mem (by omega) hdigit
    interval_cases d <;> exact absurd heq (by decide)

theorem no_dot_displaySegments (groups : List UInt16) : '.' ∉ displaySegments groups := by
  cases groups with
  | nil => simp [displaySegments]
  | cons g groups =>
    have hcons := no_dot_groupsText (g::groups)
    rw [displaySegments_cons]
    intro hmem
    exact hcons (List.mem_cons_of_mem ':' hmem)

/-- An address is read back from its groups, with or without a run of zeroes left out. -/
theorem readIpv6Addr_groups {groups : List UInt16} (hlen : groups.length = 8) :
    readIpv6Addr (displaySegments groups) = some (ipv6OfSegments groups,[]) := by
  have hread := readGroups_groupsFrom 8 0 groups (Or.inl rfl)
    (by simpa [groupsFrom] using no_dot_displaySegments groups) (by omega)
  simp only [groupsFrom,if_true,List.append_nil] at hread
  simp [readIpv6Addr,hread,hlen]

theorem readIpv6Addr_zeroes {front back : List UInt16} {len : ℕ} (hlen : 2 ≤ len)
    (htotal : front.length+len+back.length = 8) :
    readIpv6Addr (displaySegments front++"::".toList++displaySegments back) =
      some (ipv6OfSegments (front++List.replicate len 0++back),[]) := by
  have hdot : '.' ∉ displaySegments front++("::".toList++displaySegments back) := by
    simp [no_dot_displaySegments]
  have hfront := readGroups_groupsFrom 8 0 front (Or.inr ⟨displaySegments back,rfl⟩)
    (by simpa [groupsFrom] using hdot) (by omega)
  have hback := readGroups_groupsFrom (8-(front.length+1)) 0 back (Or.inl rfl)
    (by simpa [groupsFrom] using no_dot_displaySegments back) (by omega)
  simp only [groupsFrom,if_true,List.append_nil] at hfront hback
  have hcolons : displaySegments front++"::".toList++displaySegments back =
      displaySegments front++ ':':: ':'::displaySegments back := by simp
  have hzeroes : 8-front.length-back.length = len := by omega
  rw [hcolons,readIpv6Addr,hfront]
  dsimp only
  rw [if_neg (by omega),if_neg (by simp)]
  simp only [readGivenChar,if_true,bind,Option.bind,hback,hzeroes]
  rfl

theorem readIpv6Addr_colons {text : Text} {back : List UInt16} {dotted : Bool}
    (h : readGroups 7 0 text = (back,dotted,[])) : readIpv6Addr (':':: ':'::text) =
      some (ipv6OfSegments (List.replicate (8-back.length) 0++back),[]) := by
  have hnumber := NoGroup.readNumber (Or.inr ⟨text,rfl⟩) 0
  have hipv4 : readSeparator ':' 0 readIpv4Addr (':':: ':'::text) = none := readIpv4Addr_colon _
  have hhead : readGroups 8 0 (':':: ':'::text) = ([],false,':':: ':'::text) := by
    rw [readGroups,hnumber,hipv4]
    rfl
  rw [readIpv6Addr,hhead]
  dsimp only
  rw [if_neg (by simp),if_neg (by simp)]
  simp only [readGivenChar,if_true,bind,Option.bind,List.length_nil,Nat.zero_add,Nat.reduceSub,h]
  rfl

theorem readIpv6Addr_mapped {octets : Octets 16} (h : (ipv6Segments octets).take 6 = [0,0,0,0,0,0xffff]) :
    readIpv6Addr ("::ffff:".toList++
      displayIpv4 (ipv4 (octets.get 12) (octets.get 13) (octets.get 14) (octets.get 15))) = some (octets,[]) := by
  set last := ipv4 (octets.get 12) (octets.get 13) (octets.get 14) (octets.get 15) with hlast
  have hgroups : ipv6Segments octets =
      [0,0,0,0,0,0xffff]++[fromBeBytes (last.get 0) (last.get 1),fromBeBytes (last.get 2) (last.get 3)] := by
    conv_lhs => rw [← List.take_append_drop 6 (ipv6Segments octets),h]
    rfl
  have htext : "::ffff:".toList++displayIpv4 last = ':':: ':'::("ffff:".toList++displayIpv4 last) := rfl
  rw [htext,readIpv6Addr_colons (readGroups_mapped last)]
  conv_rhs => rw [← ipv6OfSegments_ipv6Segments octets,hgroups]
  rfl

theorem readIpv6Addr_display (octets : Octets 16) : readIpv6Addr (displayIpv6 octets) = some (octets,[]) := by
  unfold displayIpv6
  dsimp only
  split
  · rename_i hmapped
    exact readIpv6Addr_mapped hmapped
  · split
    · rename_i hlong
      obtain ⟨hle,hsplit⟩ := split_at_zeroes (by omega) (longestZeroes_ipv6Segments octets)
      rw [length_ipv6Segments] at hle
      rw [readIpv6Addr_zeroes hlong (by simp; omega),← hsplit,ipv6OfSegments_ipv6Segments]
    · rw [readIpv6Addr_groups (length_ipv6Segments octets),ipv6OfSegments_ipv6Segments]

theorem readIpv4Addr_displayIpv6 (octets : Octets 16) : readIpv4Addr (displayIpv6 octets) = none := by
  unfold displayIpv6
  dsimp only
  split
  · exact readIpv4Addr_colon _
  · split
    · exact readIpv4Addr_of_no_dot (by simp [no_dot_displaySegments])
    · exact readIpv4Addr_of_no_dot (no_dot_displaySegments _)

end Ipv6

/-- Parsing an address undoes printing it. -/
theorem parseIpAddr_display (ip : IpAddr) : parseIpAddr ip.display = some ip := by
  cases ip with
  | v4 octets =>
    have hread := readIpv4Addr_display octets (stops_nil 10)
    rw [List.append_nil] at hread
    simp [parseIpAddr,readIpAddr,IpAddr.display,hread]
  | v6 octets =>
    simp [parseIpAddr,readIpAddr,IpAddr.display,readIpv4Addr_displayIpv6,readIpv6Addr_display]

section Printed

/-- The characters of printed addresses and ports. -/
def IsPrinted (c : Char) : Prop := c = '.' ∨ c = ':' ∨ ∃ d < 16, c = d.digitChar

theorem isPrinted_of_mem_toDigits {radix n : ℕ} (hone : 1 < radix) (hradix : radix ≤ 16) {c : Char}
    (h : c ∈ Nat.toDigits radix n) : IsPrinted c := by
  obtain ⟨d,hd,rfl⟩ := exists_digit_of_mem hone h
  exact Or.inr (Or.inr ⟨d,by omega,rfl⟩)

theorem isPrinted_of_mem_decimal {n : ℕ} {c : Char} (h : c ∈ decimal n) : IsPrinted c :=
  isPrinted_of_mem_toDigits (by omega) (by omega) h

theorem isPrinted_of_mem_displayIpv4 {octets : Octets 4} {c : Char} (h : c ∈ displayIpv4 octets) : IsPrinted c := by
  obtain ⟨a,b,c',d,rfl⟩ := exists_ipv4 octets
  rw [displayIpv4_ipv4] at h
  simp only [List.mem_append,List.mem_cons] at h
  rcases h with h | rfl | h | rfl | h | rfl | h
  · exact isPrinted_of_mem_decimal h
  · exact Or.inl rfl
  · exact isPrinted_of_mem_decimal h
  · exact Or.inl rfl
  · exact isPrinted_of_mem_decimal h
  · exact Or.inl rfl
  · exact isPrinted_of_mem_decimal h

theorem isPrinted_of_mem_displaySegments {groups : List UInt16} {c : Char} (h : c ∈ displaySegments groups) :
    IsPrinted c := by
  have hmem : c ∈ groupsText groups := by
    cases groups with
    | nil => simp [displaySegments] at h
    | cons g groups =>
      rw [displaySegments_cons] at h
      exact List.mem_cons_of_mem ':' h
  obtain ⟨g,-,hg⟩ := List.mem_flatMap.mp hmem
  rcases List.mem_cons.mp hg with rfl | hdigit
  · exact Or.inr (Or.inl rfl)
  · exact isPrinted_of_mem_toDigits (by omega) (by omega) hdigit

theorem isPrinted_of_mem_display {ip : IpAddr} {c : Char} (h : c ∈ ip.display) : IsPrinted c := by
  have hliteral : ∀ c ∈ "::ffff:".toList, IsPrinted c := by
    intro c hc
    by_cases hcolon : c = ':'
    · exact Or.inr (Or.inl hcolon)
    · exact Or.inr (Or.inr ⟨15,by omega,(by simpa [hcolon] using hc : c = 'f')⟩)
  cases ip with
  | v4 octets => exact isPrinted_of_mem_displayIpv4 h
  | v6 octets =>
    simp only [IpAddr.display,displayIpv6] at h
    split at h
    · rcases List.mem_append.mp h with h | h
      · exact hliteral c h
      · exact isPrinted_of_mem_displayIpv4 h
    · split at h
      · rcases List.mem_append.mp h with h | h
        · rcases List.mem_append.mp h with h | h
          · exact isPrinted_of_mem_displaySegments h
          · exact hliteral c (List.mem_append_left "ffff:".toList h)
        · exact isPrinted_of_mem_displaySegments h
      · exact isPrinted_of_mem_displaySegments h

theorem length_toDigits_le {radix n digits : ℕ} (hone : 1 < radix) (hpos : 0 < digits) (h : n < radix^digits) :
    (Nat.toDigits radix n).length ≤ digits :=
  (Nat.length_toDigits_le_iff hone hpos).mpr h

theorem length_displayIpv4 (octets : Octets 4) : (displayIpv4 octets).length ≤ 15 := by
  obtain ⟨a,b,c,d,rfl⟩ := exists_ipv4 octets
  have hle : ∀ x : UInt8, (decimal x.toNat).length ≤ 3 := by
    intro x
    have hlt := x.toNat_lt
    exact length_toDigits_le (by omega) (by omega) (by omega)
  have ha := hle a
  have hb := hle b
  have hc := hle c
  have hd := hle d
  rw [displayIpv4_ipv4]
  simp only [List.length_append,List.length_cons]
  omega

theorem length_groupsText (groups : List UInt16) : (groupsText groups).length ≤ 5*groups.length := by
  induction groups with
  | nil => simp [groupsText]
  | cons g groups ih =>
    have hlt := g.toNat_lt
    have hle : (Nat.toDigits 16 g.toNat).length ≤ 4 := length_toDigits_le (by omega) (by omega) (by omega)
    simp only [groupsText,List.flatMap_cons,List.length_append,List.length_cons] at ih ⊢
    omega

theorem length_displaySegments (groups : List UInt16) : (displaySegments groups).length ≤ 5*groups.length-1 := by
  cases groups with
  | nil => simp [displaySegments]
  | cons g groups =>
    have hle := length_groupsText (g::groups)
    simp only [groupsText,List.flatMap_cons,List.length_append,List.length_cons] at hle
    rw [displaySegments_cons]
    simp only [groupsText,List.length_append,List.length_cons]
    omega

/-- Eight groups of four digits are the longest form. -/
theorem length_display (ip : IpAddr) : ip.display.length ≤ 39 := by
  cases ip with
  | v4 octets => exact (length_displayIpv4 octets).trans (by omega)
  | v6 octets =>
    simp only [IpAddr.display,displayIpv6]
    split
    · have hle := length_displayIpv4
        (ipv4 (octets.get 12) (octets.get 13) (octets.get 14) (octets.get 15))
      simp only [List.length_append,String.length_toList]
      have hliteral : "::ffff:".length = 7 := rfl
      omega
    · split
      · rename_i hlong
        have hle := (split_at_zeroes (by omega) (longestZeroes_ipv6Segments octets)).1
        set span := longestZeroes (ipv6Segments octets) 0 ⟨0,0⟩ ⟨0,0⟩
        have hfront := length_displaySegments ((ipv6Segments octets).take span.start)
        have hback := length_displaySegments ((ipv6Segments octets).drop (span.start+span.len))
        have hliteral : "::".length = 2 := rfl
        simp only [List.length_append,List.length_take,List.length_drop,length_ipv6Segments,
          String.length_toList] at hle hfront hback ⊢
        omega
      · simpa using length_displaySegments (ipv6Segments octets)

end Printed

section Consumed

def IsAddressChar (c : Char) : Prop := c = '.' ∨ c = ':' ∨ (toDigit 16 c).isSome = true

/-- Only characters of addresses were read, and `rest` is left. -/
def Consumes (text rest : Text) : Prop := ∃ used, text = used++rest ∧ ∀ c ∈ used, IsAddressChar c

theorem Consumes.refl (text : Text) : Consumes text text := ⟨[],rfl,by simp⟩

theorem Consumes.trans {text mid rest : Text} (h : Consumes text mid) (h' : Consumes mid rest) :
    Consumes text rest := by
  obtain ⟨used,rfl,hused⟩ := h
  obtain ⟨used',rfl,hused'⟩ := h'
  refine ⟨used++used',(List.append_assoc _ _ _).symm,?_⟩
  intro c hc
  rcases List.mem_append.mp hc with hc | hc
  · exact hused c hc
  · exact hused' c hc

theorem readGivenChar_consumes {sep : Char} (hsep : IsAddressChar sep) {text rest : Text}
    (h : readGivenChar sep text = some rest) : Consumes text rest := by
  cases text with
  | nil => cases h
  | cons c cs =>
    simp only [readGivenChar] at h
    split_ifs at h with hc
    cases h
    refine ⟨[c],rfl,?_⟩
    intro c' hc'
    rw [List.mem_singleton.mp hc',hc]
    exact hsep

theorem readNumber_consumes {radix maxDigits bound value : ℕ} {allowZeroPrefix : Bool} (hradix : radix ≤ 16)
    {text rest : Text} (h : readNumber radix maxDigits allowZeroPrefix bound text = some (value,rest)) :
    Consumes text rest := by
  simp only [readNumber] at h
  split_ifs at h
  cases h
  refine ⟨text.takeWhile fun c => (toDigit radix c).isSome,?_,?_⟩
  · exact List.prefix_append_drop ( List.takeWhile_prefix _)
  · intro c hc
    have hall : (text.takeWhile fun c => (toDigit radix c).isSome).all (fun c => (toDigit radix c).isSome) = true :=
      List.all_takeWhile
    have hdigit := List.all_eq_true.mp hall c hc
    obtain ⟨d,hd⟩ := Option.isSome_iff_exists.mp hdigit
    simp only [toDigit,Option.filter_eq_some_iff,decide_eq_true_eq] at hd
    refine Or.inr (Or.inr (Option.isSome_iff_exists.mpr ⟨d,?_⟩))
    simp only [toDigit,Option.filter_eq_some_iff,decide_eq_true_eq]
    exact ⟨hd.1,by omega⟩

theorem readSeparator_consumes {α : Type} {sep : Char} (hsep : IsAddressChar sep)
    {inner : Text → Option (α × Text)} (hinner : ∀ text a rest, inner text = some (a,rest) → Consumes text rest)
    {index : ℕ} {text rest : Text} {a : α} (h : readSeparator sep index inner text = some (a,rest)) :
    Consumes text rest := by
  unfold readSeparator at h
  split at h
  · obtain ⟨mid,hmid,hrest⟩ := Option.bind_eq_some_iff.mp h
    exact (readGivenChar_consumes hsep hmid).trans (hinner mid a rest hrest)
  · exact hinner text a rest h

theorem isAddressChar_dot : IsAddressChar '.' := Or.inl rfl

theorem isAddressChar_colon : IsAddressChar ':' := Or.inr (Or.inl rfl)

theorem readOctet_consumes {index : ℕ} {text rest : Text} {a : UInt8} (h : readOctet index text = some (a,rest)) :
    Consumes text rest := by
  obtain ⟨⟨value,rest'⟩,hread,heq⟩ := Option.map_eq_some_iff.mp h
  cases heq
  exact readSeparator_consumes isAddressChar_dot (fun _ _ _ => readNumber_consumes (by omega)) hread

theorem readIpv4Addr_consumes {text rest : Text} {octets : Octets 4} (h : readIpv4Addr text = some (octets,rest)) :
    Consumes text rest := by
  obtain ⟨⟨a,r₁⟩,h₁,h⟩ := Option.bind_eq_some_iff.mp h
  obtain ⟨⟨b,r₂⟩,h₂,h⟩ := Option.bind_eq_some_iff.mp h
  obtain ⟨⟨c,r₃⟩,h₃,h⟩ := Option.bind_eq_some_iff.mp h
  obtain ⟨⟨d,r₄⟩,h₄,h⟩ := Option.bind_eq_some_iff.mp h
  cases h
  exact (((readOctet_consumes h₁).trans (readOctet_consumes h₂)).trans (readOctet_consumes h₃)).trans
    (readOctet_consumes h₄)

theorem readGroups_consumes (left index : ℕ) (text : Text) : Consumes text (readGroups left index text).2.2 := by
  induction left generalizing index text with
  | zero => exact Consumes.refl text
  | succ left ih =>
    rw [readGroups]
    split
    · rename_i v4 cs' hdotted
      split at hdotted
      · exact readSeparator_consumes isAddressChar_colon (fun _ _ _ => readIpv4Addr_consumes) hdotted
      · cases hdotted
    · split
      · rename_i group cs' hgroup
        exact (readSeparator_consumes isAddressChar_colon (fun _ _ _ => readNumber_consumes (by omega)) hgroup).trans
          (ih (index+1) cs')
      · exact Consumes.refl text

theorem readIpv6Addr_consumes {text rest : Text} {octets : Octets 16}
    (h : readIpv6Addr text = some (octets,rest)) : Consumes text rest := by
  have hhead := readGroups_consumes 8 0 text
  unfold readIpv6Addr at h
  split at h
  rename_i head headIpv4 cs hgroups
  rw [hgroups] at hhead
  split at h
  · cases h
    exact hhead
  · split at h
    · cases h
    · obtain ⟨r₁,h₁,h⟩ := Option.bind_eq_some_iff.mp h
      obtain ⟨r₂,h₂,h⟩ := Option.bind_eq_some_iff.mp h
      cases h
      exact ((hhead.trans (readGivenChar_consumes isAddressChar_colon h₁)).trans
        (readGivenChar_consumes isAddressChar_colon h₂)).trans (readGroups_consumes _ 0 r₂)

/-- What parses as an address is written in the characters of addresses. -/
theorem isAddressChar_of_parseIpAddr {text : Text} {ip : IpAddr} (h : parseIpAddr text = some ip) :
    ∀ c ∈ text, IsAddressChar c := by
  have hconsumes : Consumes text [] := by
    unfold parseIpAddr readIpAddr at h
    cases hv4 : readIpv4Addr text with
    | some r =>
      rcases r with ⟨octets,rest⟩
      rw [hv4] at h
      cases rest with
      | nil => exact readIpv4Addr_consumes hv4
      | cons c cs => cases h
    | none =>
      rw [hv4] at h
      cases hv6 : readIpv6Addr text with
      | none =>
        rw [hv6] at h
        cases h
      | some r =>
        rcases r with ⟨octets,rest⟩
        rw [hv6] at h
        cases rest with
        | nil => exact readIpv6Addr_consumes hv6
        | cons c cs => cases h
  obtain ⟨used,htext,hused⟩ := hconsumes
  rw [List.append_nil] at htext
  rw [htext]
  exact hused

theorem isWhitespace_of_isAddressChar {c : Char} (h : IsAddressChar c) : isWhitespace c = false := by
  rcases h with rfl | rfl | hdigit
  · decide
  · decide
  · obtain ⟨d,hd⟩ := Option.isSome_iff_exists.mp hdigit
    simp only [toDigit,Option.filter_eq_some_iff,Char.le_def,UInt32.le_iff_toNat_le] at hd
    have hrange : 48 ≤ c.toNat ∧ c.toNat ≤ 57 ∨ 97 ≤ c.toNat ∧ c.toNat ≤ 122 ∨ 65 ≤ c.toNat ∧ c.toNat ≤ 90 := by
      obtain ⟨hd,-⟩ := hd
      split_ifs at hd with h₁ h₂ h₃
      · exact Or.inl h₁
      · exact Or.inr (Or.inl h₂)
      · exact Or.inr (Or.inr h₃)
    simp only [isWhitespace,Bool.or_eq_false_iff,Bool.and_eq_false_iff,decide_eq_false_iff_not]
    omega

end Consumed

end Net
end OxiGate
