import OxiGate.Connection
import OxiGate.ProxyWire

/-! The headers the PROXY protocol allows, against those the reader believes. The reader looks at
the places of words and bytes; what it does not look at is made explicit. -/
namespace OxiGate
namespace ProxyProtocol

open Stream' (Seq)
open ByteReader Net RustText Connection

variable {S : Type}

/-- The header gives addresses; a header that gives none is returned as the unspecified pair. -/
def ProxyHeader.Carries (header : ProxyHeader) : Prop := header ≠ ⟨.unspecified,.unspecified⟩

/-- The v1 lines with addresses: six words with one blank between them, the addresses of the
family the protocol word names, the ports in plain decimal. -/
inductive WellFormedLine : Text → Prop
  | tcp4 {src dst : Text} {a b : Octets 4} (sport dport : UInt16) (hsrc : parseIpAddr src = some (.v4 a))
      (hdst : parseIpAddr dst = some (.v4 b)) : WellFormedLine (List.intercalate [' ']
        ["PROXY".toList,"TCP4".toList,src,dst,decimal sport.toNat,decimal dport.toNat])
  | tcp6 {src dst : Text} {a b : Octets 16} (sport dport : UInt16) (hsrc : parseIpAddr src = some (.v6 a))
      (hdst : parseIpAddr dst = some (.v6 b)) : WellFormedLine (List.intercalate [' ']
        ["PROXY".toList,"TCP6".toList,src,dst,decimal sport.toNat,decimal dport.toNat])

def ProxyCommand (verCmd : UInt8) : Prop := verCmd >>> 4 = 2 ∧ verCmd &&& 0x0F = 1

def WellFormedHeader (input : Seq UInt8) : Prop :=
  (∃ pos line, FirstCrlfAt input pos ∧ fromUtf8 (input.take pos) = some line ∧ WellFormedLine line) ∨
  (StartsWith input v2Sig ∧ ∃ verCmd family, input.get? 12 = some verCmd ∧ input.get? 13 = some family ∧
    ProxyCommand verCmd ∧ (family = 0x11 ∨ family = 0x21))

/-- Addresses are taken from well-formed headers only; another stream that starts like a header is
refused or gives no address. -/
def BelievesOnlyWellFormed [AsyncRead UInt8 S] [LawfulRead UInt8 S] (stream : S) : Prop :=
  (∀ header ps, maybeReadProxyHeader stream = .ok (some header,ps) → header.Carries →
    WellFormedHeader (LawfulRead.rest stream)) ∧
  (StartsWith (LawfulRead.rest stream) v1Sig ∨ StartsWith (LawfulRead.rest stream) v2Sig →
    ¬WellFormedHeader (LawfulRead.rest stream) → (∃ f, maybeReadProxyHeader stream = .error f) ∨
      ∃ header ps, maybeReadProxyHeader stream = .ok (some header,ps) ∧ ¬header.Carries)

section Lines

def plainPort (text : Text) : Bool :=
  match parseUint 65535 text with
  | .ok n => decide (text = decimal n)
  | .error _ => false

def namesFamily (proto src dst : Text) : Bool :=
  match parseIpAddr src,parseIpAddr dst with
  | some (.v4 _), some (.v4 _) => decide (proto = "TCP4".toList)
  | some (.v6 _), some (.v6 _) => decide (proto = "TCP6".toList)
  | _, _ => false

def strictLine (line : Text) : Bool :=
  match splitWhitespace line with
  | [proxy,proto,src,dst,sport,dport] =>
    decide (line = List.intercalate [' '] [proxy,proto,src,dst,sport,dport]) &&
      decide (proxy = "PROXY".toList) && plainPort sport && plainPort dport && namesFamily proto src dst
  | _ => false

theorem parseDigits_le {max acc n : ℕ} {digits : Text} (hacc : acc ≤ max)
    (h : parseDigits max acc digits = .ok n) : n ≤ max := by
  induction digits generalizing acc with
  | nil =>
    cases h
    exact hacc
  | cons c cs ih =>
    rw [parseDigits] at h
    split at h
    · cases h
    · split at h
      · cases h
      · rename_i hle
        exact ih (Nat.le_of_not_lt hle) h

theorem parseUint_le {max n : ℕ} {text : Text} (h : parseUint max text = .ok n) : n ≤ max := by
  unfold parseUint at h
  split at h
  · cases h
  · cases h
  · exact parseDigits_le (Nat.zero_le _) h
  · exact parseDigits_le (Nat.zero_le _) h

theorem plainPort_iff {text : Text} : plainPort text = true ↔ ∃ port : UInt16, text = decimal port.toNat := by
  constructor
  · intro h
    unfold plainPort at h
    split at h
    · rename_i n hparse
      have hle := parseUint_le hparse
      refine ⟨UInt16.ofNat n,?_⟩
      rw [UInt16.toNat_ofNat',Nat.mod_eq_of_lt (by omega)]
      exact of_decide_eq_true h
    · cases h
  · rintro ⟨port,rfl⟩
    have hlt := port.toNat_lt
    have hparse : parseUint 65535 (decimal port.toNat) = .ok port.toNat := parseUint_decimal (by omega)
    simp [plainPort,hparse]

theorem word_of_parseIpAddr {text : Text} {ip : IpAddr} (h : parseIpAddr text = some ip) :
    text ≠ [] ∧ ∀ c ∈ text, isWhitespace c = false := by
  constructor
  · rintro rfl
    cases h
  · intro c hc
    exact isWhitespace_of_isAddressChar (isAddressChar_of_parseIpAddr h c hc)

theorem word_decimal (n : ℕ) : decimal n ≠ [] ∧ ∀ c ∈ decimal n, isWhitespace c = false :=
  ⟨Nat.toDigits_ne_nil,fun _ hc => (isWordChar_of_isPrinted (isPrinted_of_mem_decimal hc)).1⟩

theorem splitWhitespace_six {proto src dst : Text} {ip ip' : IpAddr}
    (hproto : proto ≠ [] ∧ ∀ c ∈ proto, isWhitespace c = false) (hsrc : parseIpAddr src = some ip)
    (hdst : parseIpAddr dst = some ip') (m n : ℕ) :
    splitWhitespace (List.intercalate [' '] ["PROXY".toList,proto,src,dst,decimal m,decimal n]) =
      ["PROXY".toList,proto,src,dst,decimal m,decimal n] := by
  apply splitWhitespace_intercalate (List.cons_ne_nil _ _)
  intro w hw
  simp only [List.mem_cons,List.not_mem_nil,or_false] at hw
  rcases hw with rfl | rfl | rfl | rfl | rfl | rfl
  · exact word_of_all (by decide) (by decide)
  · exact hproto
  · exact word_of_parseIpAddr hsrc
  · exact word_of_parseIpAddr hdst
  · exact word_decimal m
  · exact word_decimal n

theorem wellFormedLine_iff {line : Text} : WellFormedLine line ↔ strictLine line = true := by
  constructor
  · intro h
    cases h with
    | tcp4 sport dport hsrc hdst =>
      have hsport := plainPort_iff.mpr ⟨sport,rfl⟩
      have hdport := plainPort_iff.mpr ⟨dport,rfl⟩
      have hproto : "TCP4".toList ≠ [] ∧ ∀ c ∈ "TCP4".toList, isWhitespace c = false :=
        word_of_all (by decide) (by decide)
      simp only [strictLine,splitWhitespace_six hproto hsrc hdst,hsport,hdport,namesFamily,hsrc,hdst]
      rfl
    | tcp6 sport dport hsrc hdst =>
      have hsport := plainPort_iff.mpr ⟨sport,rfl⟩
      have hdport := plainPort_iff.mpr ⟨dport,rfl⟩
      have hproto : "TCP6".toList ≠ [] ∧ ∀ c ∈ "TCP6".toList, isWhitespace c = false :=
        word_of_all (by decide) (by decide)
      simp only [strictLine,splitWhitespace_six hproto hsrc hdst,hsport,hdport,namesFamily,hsrc,hdst]
      rfl
  · intro h
    unfold strictLine at h
    split at h
    · rename_i proxy proto src dst sport dport hwords
      simp only [Bool.and_eq_true,decide_eq_true_eq] at h
      obtain ⟨⟨⟨⟨hline,hproxy⟩,hsport⟩,hdport⟩,hfamily⟩ := h
      obtain ⟨p,rfl⟩ := plainPort_iff.mp hsport
      obtain ⟨q,rfl⟩ := plainPort_iff.mp hdport
      rw [hline,hproxy]
      unfold namesFamily at hfamily
      split at hfamily
      · rename_i a b hsrc hdst
        rw [of_decide_eq_true hfamily]
        exact .tcp4 p q hsrc hdst
      · rename_i a b hsrc hdst
        rw [of_decide_eq_true hfamily]
        exact .tcp6 p q hsrc hdst
      · cases hfamily
    · cases h

/-- The addresses and ports at the places of a line where the reader looks for them. -/
def lineAddresses (line : Text) : Option ProxyHeader :=
  match splitWhitespace line with
  | proxy::_::src::dst::sport::dport::_ =>
    if proxy = "PROXY".toList then
      (parseSocket src sport).toOption.bind fun src => (parseSocket dst dport).toOption.map fun dst => ⟨src,dst⟩
    else none
  | _ => none

theorem toOption_eq_some {ε α : Type} {x : Except ε α} {a : α} : x.toOption = some a ↔ x = .ok a := by
  cases x <;> simp [Except.toOption]

theorem socketPair_eq_some {src dst sport dport : Text} {header : ProxyHeader} :
    ((parseSocket src sport).toOption.bind fun s => (parseSocket dst dport).toOption.map fun d =>
      (⟨s,d⟩ : ProxyHeader)) = some header ↔
    (do let s ← parseSocket src sport; let d ← parseSocket dst dport; pure ⟨s,d⟩) = Except.ok header := by
  simp only [Option.bind_eq_some_iff,Option.map_eq_some_iff,toOption_eq_some,bind_eq_ok]
  constructor
  · rintro ⟨s,hs,d,hd,rfl⟩
    exact ⟨s,hs,d,hd,rfl⟩
  · rintro ⟨s,hs,d,hd,heq⟩
    cases heq
    exact ⟨s,hs,d,hd,rfl⟩

theorem parseV1Line_carries {line : Text} {header : ProxyHeader} (hcarries : header.Carries) :
    parseV1Line line = .ok header ↔ unknownLine line = false ∧ lineAddresses line = some header := by
  have hplace : Except.ok ⟨.unspecified,.unspecified⟩ ≠ (Except.ok header : Except ProxyError ProxyHeader) := by
    intro h
    exact hcarries (Except.ok.inj h).symm
  unfold parseV1Line unknownLine lineAddresses
  generalize "PROXY".toList = proxyWord
  generalize "UNKNOWN".toList = unknownWord
  rcases splitWhitespace line with _ | ⟨proxy,_ | ⟨proto,parts⟩⟩
  · simp
  · simp
  · by_cases hproxy : proxy = proxyWord
    · by_cases hproto : proto = unknownWord
      · simp [hproto,hproxy,hplace]
      · rcases parts with _ | ⟨src,_ | ⟨dst,_ | ⟨sport,_ | ⟨dport,more⟩⟩⟩⟩
        · simp [hproto,hproxy]
        · simp [hproto,hproxy]
        · simp [hproto,hproxy]
        · simp [hproto,hproxy]
        · simp only [hproxy,ne_eq,not_true_eq_false,if_false,if_true,if_neg hproto,decide_eq_false hproto,true_and]
          exact socketPair_eq_some.symm
    · rcases parts with _ | ⟨src,_ | ⟨dst,_ | ⟨sport,_ | ⟨dport,more⟩⟩⟩⟩ <;> simp [hproxy]

end Lines

section Blocks

def blockAddresses (hdr rest : List UInt8) : Option ProxyHeader :=
  if hdr.getD 13 0 = 0x11 ∧ 12 ≤ rest.length then
    some ⟨⟨.v4 (octetsAt 4 rest 0),portAt rest 8⟩,⟨.v4 (octetsAt 4 rest 4),portAt rest 10⟩⟩
  else if hdr.getD 13 0 = 0x21 ∧ 36 ≤ rest.length then
    some ⟨⟨.v6 (octetsAt 16 rest 0),portAt rest 32⟩,⟨.v6 (octetsAt 16 rest 16),portAt rest 34⟩⟩
  else none

theorem family_of_blockAddresses {hdr rest : List UInt8} {header : ProxyHeader}
    (h : blockAddresses hdr rest = some header) : hdr.getD 13 0 = 0x11 ∨ hdr.getD 13 0 = 0x21 := by
  unfold blockAddresses at h
  split at h
  · rename_i hv4
    exact Or.inl hv4.1
  · split at h
    · rename_i hv6
      exact Or.inr hv6.1
    · cases h

/-- A block is believed whatever the version, and under every command but `LOCAL`. -/
theorem decodeV2_carries {hdr rest : List UInt8} {header : ProxyHeader} (hcarries : header.Carries) :
    decodeV2 hdr rest = .ok header ↔ localCommand hdr = false ∧ blockAddresses hdr rest = some header := by
  unfold decodeV2 localCommand blockAddresses
  dsimp only
  by_cases hlocal : hdr.getD 12 0 &&& 0x0F = 0x00
  · rw [if_pos hlocal,decide_eq_true hlocal]
    constructor
    · intro h
      exact absurd (Except.ok.inj h).symm hcarries
    · rintro ⟨h,-⟩
      cases h
  · rw [if_neg hlocal,decide_eq_false hlocal]
    split_ifs <;> simp

def v2Block (input : Seq UInt8) : List UInt8 := (input.drop 16).take (v2Len (input.take 16))

def V2Complete (input : Seq UInt8) : Prop :=
  16 ≤ (input.take 16).length ∧ v2Len (input.take 16) ≤ (v2Block input).length

end Blocks

section Streams

theorem v1Line_eq_some {input : Seq UInt8} {line : Text} : v1Line input = some line ↔
    ∃ pos, crlfPosition (input.take 109) = some pos ∧ fromUtf8 (input.take pos) = some line :=
  Option.bind_eq_some_iff

theorem peek_v1_carries {input : Seq UInt8} (hsig : StartsWith input v1Sig) {header : ProxyHeader}
    (hcarries : header.Carries) : (∃ rest, peek input = .ok (some header,rest)) ↔
      ∃ line, v1Line input = some line ∧ unknownLine line = false ∧ lineAddresses line = some header := by
  have hsix : input.take 6 = v1Sig := hsig
  constructor
  · rintro ⟨rest,hpeek⟩
    rcases peek_ok hpeek with ⟨-,header',heq,hv1⟩ | ⟨hne,-⟩ | ⟨hne,-⟩
    · cases heq
      obtain ⟨pos,hpos,hdecode,-⟩ := peekV1_ok hv1
      unfold decodeV1 at hdecode
      cases hline : fromUtf8 (input.take pos) with
      | none =>
        rw [hline] at hdecode
        cases hdecode
      | some line =>
        rw [hline] at hdecode
        exact ⟨line,v1Line_eq_some.mpr ⟨pos,hpos,hline⟩,(parseV1Line_carries hcarries).mp hdecode⟩
    · exact absurd hsix hne
    · exact absurd hsix hne
  · rintro ⟨line,hline,hbelieved⟩
    obtain ⟨pos,hpos,hutf⟩ := v1Line_eq_some.mp hline
    have hparse := (parseV1Line_carries hcarries).mpr hbelieved
    refine ⟨input.drop (pos+2),?_⟩
    simp only [peek,if_pos hsix,peekV1,hpos,decodeV1,hutf,hparse,Except.map]

theorem not_v1_of_v2 {input : Seq UInt8} (hsig : StartsWith input v2Sig) : input.take 6 ≠ v1Sig := by
  have hinput := (take_append_drop input 12).symm
  rw [show input.take 12 = v2Sig from hsig] at hinput
  rw [take_eq_of_append hinput (by decide : 6 ≤ v2Sig.length)]
  decide

theorem v2Complete_of_peekV2 {input rest : Seq UInt8} {header : ProxyHeader}
    (h : peekV2 input = .ok (header,rest)) : V2Complete input := by
  simp only [peekV2] at h
  split at h
  · cases h
  · rename_i hlen
    split at h
    · cases h
    · rename_i hrest
      exact ⟨Nat.le_of_not_lt hlen,Nat.le_of_not_lt hrest⟩

theorem peek_v2_carries {input : Seq UInt8} (hsig : StartsWith input v2Sig) {header : ProxyHeader}
    (hcarries : header.Carries) : (∃ rest, peek input = .ok (some header,rest)) ↔
      V2Complete input ∧ localCommand (input.take 16) = false ∧
        blockAddresses (input.take 16) (v2Block input) = some header := by
  have htwelve : input.take 12 = v2Sig := hsig
  have hsix : input.take 6 ≠ v1Sig := not_v1_of_v2 hsig
  rw [← decodeV2_carries hcarries]
  constructor
  · rintro ⟨rest,hpeek⟩
    rcases peek_ok hpeek with ⟨hv1,-⟩ | ⟨-,-,header',heq,hv2⟩ | ⟨-,hne,-⟩
    · exact absurd hv1 hsix
    · cases heq
      exact ⟨v2Complete_of_peekV2 hv2,(peekV2_ok hv2).2.1⟩
    · exact absurd htwelve hne
  · rintro ⟨⟨hlen,hrest⟩,hdecode⟩
    unfold v2Block at hrest hdecode
    refine ⟨input.drop (16+v2Len (input.take 16)),?_⟩
    simp only [peek,if_neg hsix,if_pos htwelve,peekV2,if_neg (Nat.not_lt.mpr hlen),if_neg (Nat.not_lt.mpr hrest),
      hdecode,Except.map]

theorem not_wellFormedLine_nil : ¬WellFormedLine [] := by
  rw [wellFormedLine_iff]
  decide

theorem wellFormed_v1 {input : Seq UInt8} (hsig : StartsWith input v1Sig) {line : Text}
    (hline : v1Line input = some line) : WellFormedHeader input ↔ strictLine line = true := by
  obtain ⟨pos,hpos,hutf⟩ := v1Line_eq_some.mp hline
  have hfirst := firstCrlfAt_of_take hpos
  rw [← wellFormedLine_iff]
  constructor
  · rintro (⟨pos',line',hfirst',hutf',hwell⟩ | ⟨hv2,-⟩)
    · rw [← hfirst.unique hfirst',hutf] at hutf'
      cases hutf'
      exact hwell
    · exact absurd hsig (not_v1_of_v2 hv2)
  · intro hwell
    exact Or.inl ⟨pos,line,hfirst,hutf,hwell⟩

/-- Of a stream that starts like a v2 header, the two bytes after the signature decide: its first
line is empty. -/
theorem wellFormed_v2 {input : Seq UInt8} (hsig : StartsWith input v2Sig) (hlen : 16 ≤ (input.take 16).length) :
    WellFormedHeader input ↔ ProxyCommand ((input.take 16).getD 12 0) ∧
      ((input.take 16).getD 13 0 = 0x11 ∨ (input.take 16).getD 13 0 = 0x21) := by
  have hbyte : ∀ i < 16, input.get? i = some ((input.take 16).getD i 0) := fun i hi =>
    get?_of_header (Nat.not_lt.mpr hlen) hi
  constructor
  · rintro (⟨pos,line,hfirst,hutf,hwell⟩ | ⟨-,verCmd,family,hverCmd,hfamily,hcommand,hsupported⟩)
    · have hsigByte : ∀ i < 12, input.get? i = v2Sig[i]? := by
        intro i hi
        have hget := Seq.getElem?_take i 12 input
        rw [if_pos hi,show input.take 12 = v2Sig from hsig] at hget
        exact hget.symm
      have hzero : FirstCrlfAt input 0 :=
        ⟨⟨hsigByte 0 (by omega),hsigByte 1 (by omega)⟩,fun i hi => absurd hi (Nat.not_lt_zero i)⟩
      rw [hfirst.unique hzero] at hutf
      have hempty : fromUtf8 (input.take 0) = some [] := fromUtf8_asBytes []
      rw [hempty] at hutf
      cases hutf
      exact absurd hwell not_wellFormedLine_nil
    · rw [hbyte 12 (by omega)] at hverCmd
      rw [hbyte 13 (by omega)] at hfamily
      cases hverCmd
      cases hfamily
      exact ⟨hcommand,hsupported⟩
  · rintro ⟨hcommand,hsupported⟩
    exact Or.inr ⟨hsig,_,_,hbyte 12 (by omega),hbyte 13 (by omega),hcommand,hsupported⟩

/-- What the reader leaves unchecked is in order: a line that gives addresses is in the strict
form, and a block that gives addresses comes with version 2 and the command `PROXY`. -/
structure UncheckedInOrder (input : Seq UInt8) : Prop where
  line : StartsWith input v1Sig → ∀ line header, v1Line input = some line → unknownLine line = false →
    lineAddresses line = some header → header.Carries → strictLine line = true
  block : StartsWith input v2Sig → V2Complete input → localCommand (input.take 16) = false →
    ∀ header, blockAddresses (input.take 16) (v2Block input) = some header → header.Carries →
      ProxyCommand ((input.take 16).getD 12 0)

theorem signature_of_some {input rest : Seq UInt8} {header : ProxyHeader}
    (h : peek input = .ok (some header,rest)) : StartsWith input v1Sig ∨ StartsWith input v2Sig := by
  rcases peek_ok h with ⟨hv1,-⟩ | ⟨-,hv2,-⟩ | ⟨-,-,hnone,-⟩
  · exact Or.inl hv1
  · exact Or.inr hv2
  · cases hnone

theorem some_of_signature {input rest : Seq UInt8} {found : Option ProxyHeader}
    (hsig : StartsWith input v1Sig ∨ StartsWith input v2Sig) (h : peek input = .ok (found,rest)) :
    ∃ header, found = some header := by
  rcases peek_ok h with ⟨-,header,hfound,-⟩ | ⟨-,-,header,hfound,-⟩ | ⟨hv1,hv2,-⟩
  · exact ⟨header,hfound⟩
  · exact ⟨header,hfound⟩
  · rcases hsig with hsig | hsig
    · exact absurd hsig hv1
    · exact absurd hsig hv2

theorem wellFormed_of_inOrder {input rest : Seq UInt8} {header : ProxyHeader} (h : UncheckedInOrder input)
    (hpeek : peek input = .ok (some header,rest)) (hcarries : header.Carries) : WellFormedHeader input := by
  rcases signature_of_some hpeek with hsig | hsig
  · obtain ⟨line,hline,hunknown,haddresses⟩ := (peek_v1_carries hsig hcarries).mp ⟨rest,hpeek⟩
    exact (wellFormed_v1 hsig hline).mpr (h.line hsig line header hline hunknown haddresses hcarries)
  · obtain ⟨hcomplete,hlocal,haddresses⟩ := (peek_v2_carries hsig hcarries).mp ⟨rest,hpeek⟩
    exact (wellFormed_v2 hsig hcomplete.1).mpr
      ⟨h.block hsig hcomplete hlocal header haddresses hcarries,family_of_blockAddresses haddresses⟩

theorem inOrder_of_wellFormed {input : Seq UInt8} (h : ∀ header rest, peek input = .ok (some header,rest) →
    header.Carries → WellFormedHeader input) : UncheckedInOrder input where
  line := by
    intro hsig line header hline hunknown haddresses hcarries
    obtain ⟨rest,hpeek⟩ := (peek_v1_carries hsig hcarries).mpr ⟨line,hline,hunknown,haddresses⟩
    exact (wellFormed_v1 hsig hline).mp (h header rest hpeek hcarries)
  block := by
    intro hsig hcomplete hlocal header haddresses hcarries
    obtain ⟨rest,hpeek⟩ := (peek_v2_carries hsig hcarries).mpr ⟨hcomplete,hlocal,haddresses⟩
    exact ((wellFormed_v2 hsig hcomplete.1).mp (h header rest hpeek hcarries)).1

/-- Only well-formed headers are believed exactly of the streams that are in order where the
reader does not look. -/
theorem believesOnlyWellFormed_iff [AsyncRead UInt8 S] [LawfulRead UInt8 S] (stream : S) :
    BelievesOnlyWellFormed stream ↔ UncheckedInOrder (LawfulRead.rest stream) := by
  constructor
  · rintro ⟨hbelieved,-⟩
    apply inOrder_of_wellFormed
    intro header rest hpeek hcarries
    obtain ⟨ps,hread,-⟩ := ok_of_peek hpeek
    exact hbelieved header ps hread hcarries
  · intro h
    have hbelieved : ∀ header ps, maybeReadProxyHeader stream = .ok (some header,ps) → header.Carries →
        WellFormedHeader (LawfulRead.rest stream) := fun header ps hread hcarries =>
      wellFormed_of_inOrder h (peek_of_ok hread) hcarries
    refine ⟨hbelieved,?_⟩
    intro hsig hill
    cases hread : maybeReadProxyHeader stream with
    | error f => exact Or.inl ⟨f,rfl⟩
    | ok found =>
      rcases found with ⟨found,ps⟩
      obtain ⟨header,rfl⟩ := some_of_signature hsig (peek_of_ok hread)
      exact Or.inr ⟨header,ps,rfl,fun hcarries => hill (hbelieved header ps hread hcarries)⟩

/-- A line with an unknown protocol, two families, a signed port and a seventh word. -/
def spoofedLine : Scheduled UInt8 :=
  ⟨Seq.ofList (asBytes "PROXY SPOOF 192.0.2.7 2001:db8::1 +50000 443 more\r\n".toList),Stream'.const 16⟩

/-- A block of version 1 under the command 15. -/
def spoofedBlock : Scheduled UInt8 :=
  ⟨Seq.ofList (v2Sig++[0x1F,0x11,0x00,0x0C]++sampleEndpoints.block),Stream'.const 16⟩

def spoofedHeader : ProxyHeader :=
  ⟨⟨.v4 (ipv4 192 0 2 7),50000⟩,⟨.v6 ⟨[0x20,0x01,0x0d,0xb8,0,0,0,0,0,0,0,0,0,0,0,1],rfl⟩,443⟩⟩

/-- Both are believed. -/
theorem spoofed_headers_believed :
    (∃ ps, maybeReadProxyHeader spoofedLine = .ok (some spoofedHeader,ps) ∧ spoofedHeader.Carries ∧
      ¬WellFormedHeader (LawfulRead.rest spoofedLine)) ∧
    ∃ ps, maybeReadProxyHeader spoofedBlock = .ok (some sampleEndpoints.header,ps) ∧
      sampleEndpoints.header.Carries ∧ ¬WellFormedHeader (LawfulRead.rest spoofedBlock) := by
  constructor
  · have houtcome : outcome (maybeReadProxyHeader spoofedLine) = .ok (some spoofedHeader) := by
      rw [outcome_eq_peek]
      decide +kernel
    have hsig : (LawfulRead.rest spoofedLine).take 6 = v1Sig := by decide +kernel
    have hline : v1Line (LawfulRead.rest spoofedLine) =
        some "PROXY SPOOF 192.0.2.7 2001:db8::1 +50000 443 more".toList := by decide +kernel
    obtain ⟨ps,hread⟩ := found_of_outcome houtcome
    refine ⟨ps,hread,(by decide : spoofedHeader ≠ _),?_⟩
    rw [wellFormed_v1 hsig hline]
    decide +kernel
  · have houtcome : outcome (maybeReadProxyHeader spoofedBlock) = .ok (some sampleEndpoints.header) := by
      rw [outcome_eq_peek]
      decide +kernel
    have hsig : (LawfulRead.rest spoofedBlock).take 12 = v2Sig := by decide +kernel
    have hlen : 16 ≤ ((LawfulRead.rest spoofedBlock).take 16).length := by decide +kernel
    have hversion : ¬((LawfulRead.rest spoofedBlock).take 16).getD 12 0 >>> 4 = 2 := by decide +kernel
    obtain ⟨ps,hread⟩ := found_of_outcome houtcome
    refine ⟨ps,hread,(by decide : sampleEndpoints.header ≠ _),?_⟩
    rw [wellFormed_v2 hsig hlen]
    exact fun h => hversion h.1.1

end Streams

end ProxyProtocol
end OxiGate
