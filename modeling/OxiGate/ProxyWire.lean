import OxiGate.NetText
import OxiGate.ProxyPeek

/-! PROXY headers as senders write them, and that reading a stream undoes writing its header.
Both versions are followed through `peek`, so the cuts of the stream do not matter. -/
namespace OxiGate
namespace ProxyProtocol

open Stream' (Seq)
open ByteReader Net RustText

variable {S : Type}

/-- The two ends of a connection, of one address family. -/
inductive Endpoints
  | v4 (src dst : Octets 4) (sport dport : UInt16)
  | v6 (src dst : Octets 16) (sport dport : UInt16)

def Endpoints.header : Endpoints → ProxyHeader
  | .v4 src dst sport dport => ⟨⟨.v4 src,sport⟩,⟨.v4 dst,dport⟩⟩
  | .v6 src dst sport dport => ⟨⟨.v6 src,sport⟩,⟨.v6 dst,dport⟩⟩

/-- `u16::to_be_bytes`. -/
def toBeBytes (n : UInt16) : List UInt8 := [UInt8.ofNat (n.toNat/256),UInt8.ofNat n.toNat]

theorem ok_of_peek [AsyncRead UInt8 S] [LawfulRead UInt8 S] {stream : S} {header : Option ProxyHeader}
    {rest : Seq UInt8} (h : peek (LawfulRead.rest stream) = .ok (header,rest)) :
    ∃ ps, maybeReadProxyHeader stream = .ok (header,ps) ∧ LawfulRead.rest ps = rest := by
  have hagree := maybeReadProxyHeader_agrees stream
  rw [h] at hagree
  cases hread : maybeReadProxyHeader stream with
  | error f => rw [hread] at hagree; exact hagree.elim
  | ok a =>
    rw [hread] at hagree
    rcases a with ⟨found,ps⟩
    have hpair : (found,LawfulRead.rest ps) = (header,rest) := hagree
    cases hpair
    exact ⟨ps,rfl,rfl⟩

section V2

theorem fromBeBytes_toBeBytes (n : UInt16) :
    fromBeBytes (UInt8.ofNat (n.toNat/256)) (UInt8.ofNat n.toNat) = n := by
  have hlt := n.toNat_lt
  apply UInt16.toNat_inj.mp
  simp only [fromBeBytes,UInt16.toNat_ofNat',UInt8.toNat_ofNat']
  omega

theorem portAt_append {before after : List UInt8} {n : UInt16} {offset : ℕ} (hoffset : before.length = offset) :
    portAt (before++(toBeBytes n++after)) offset = n := by
  subst hoffset
  have hhigh : (before++(toBeBytes n++after)).getD before.length 0 = UInt8.ofNat (n.toNat/256) := by
    simp [toBeBytes,List.getD_eq_getElem?_getD]
  have hlow : (before++(toBeBytes n++after)).getD (before.length+1) 0 = UInt8.ofNat n.toNat := by
    simp [toBeBytes,List.getD_eq_getElem?_getD]
  rw [portAt,hhigh,hlow,fromBeBytes_toBeBytes]

theorem octetsAt_append {before after : List UInt8} {len : ℕ} {octets : Octets len} {offset : ℕ}
    (hoffset : before.length = offset) : octetsAt len (before++(octets.toList++after)) offset = octets := by
  subst hoffset
  apply List.Vector.ext
  intro i
  have hlt : i.val < octets.toList.length := by simp
  simp only [octetsAt,List.Vector.get_ofFn,List.getD_eq_getElem?_getD]
  rw [List.getElem?_append_right (by omega),Nat.add_sub_cancel_left,List.getElem?_append_left hlt,
    List.getElem?_eq_getElem hlt]
  exact (List.Vector.get_eq_get_toList octets i).symm

def Endpoints.family : Endpoints → UInt8
  | .v4 .. => 0x11
  | .v6 .. => 0x21

def addressBlock {n : ℕ} (src dst : Octets n) (sport dport : UInt16) : List UInt8 :=
  src.toList++(dst.toList++(toBeBytes sport++toBeBytes dport))

def Endpoints.block : Endpoints → List UInt8
  | .v4 src dst sport dport => addressBlock src dst sport dport
  | .v6 src dst sport dport => addressBlock src dst sport dport

theorem length_addressBlock {n : ℕ} (src dst : Octets n) (sport dport : UInt16) :
    (addressBlock src dst sport dport).length = 2*n+4 := by
  simp [addressBlock,toBeBytes]
  omega

theorem addressBlock_fields {n : ℕ} (src dst : Octets n) (sport dport : UInt16) (tlvs : List UInt8) :
    octetsAt n (addressBlock src dst sport dport++tlvs) 0 = src ∧
    octetsAt n (addressBlock src dst sport dport++tlvs) n = dst ∧
    portAt (addressBlock src dst sport dport++tlvs) (2*n) = sport ∧
    portAt (addressBlock src dst sport dport++tlvs) (2*n+2) = dport := by
  have hsrc : octetsAt n ([]++(src.toList++(dst.toList++(toBeBytes sport++(toBeBytes dport++tlvs))))) 0 = src :=
    octetsAt_append rfl
  have hdst : octetsAt n (src.toList++(dst.toList++(toBeBytes sport++(toBeBytes dport++tlvs)))) n = dst :=
    octetsAt_append src.toList_length
  have hsport : portAt ((src.toList++dst.toList)++(toBeBytes sport++(toBeBytes dport++tlvs))) (2*n) = sport :=
    portAt_append (by simp; omega)
  have hdport : portAt ((src.toList++(dst.toList++toBeBytes sport))++(toBeBytes dport++tlvs)) (2*n+2) = dport :=
    portAt_append (by simp [toBeBytes]; omega)
  simp only [addressBlock,List.append_assoc,List.nil_append] at hsrc hsport hdport ⊢
  exact ⟨hsrc,hdst,hsport,hdport⟩

def v2Header (family : UInt8) (len : ℕ) : List UInt8 := v2Sig++[0x21,family]++toBeBytes (UInt16.ofNat len)

def encodeV2 (e : Endpoints) (tlvs : List UInt8) : List UInt8 :=
  v2Header e.family (e.block++tlvs).length++(e.block++tlvs)

theorem v2Len_v2Header (family : UInt8) {len : ℕ} (hlen : len ≤ 65535) : v2Len (v2Header family len) = len := by
  have hport : portAt (v2Sig++[0x21,family]++(toBeBytes (UInt16.ofNat len)++[])) 14 = UInt16.ofNat len :=
    portAt_append rfl
  rw [List.append_nil] at hport
  rw [v2Len,v2Header,hport,UInt16.toNat_ofNat']
  omega

theorem decodeV2_v4 (len : ℕ) {rest : List UInt8} (h : 12 ≤ rest.length) : decodeV2 (v2Header 0x11 len) rest =
    .ok ⟨⟨.v4 (octetsAt 4 rest 0),portAt rest 8⟩,⟨.v4 (octetsAt 4 rest 4),portAt rest 10⟩⟩ := by
  have hcommand : ¬(0x21 : UInt8) &&& 0x0F = 0 := by decide
  simp [decodeV2,v2Header,v2Sig,h,hcommand]

theorem decodeV2_v6 (len : ℕ) {rest : List UInt8} (h : 36 ≤ rest.length) : decodeV2 (v2Header 0x21 len) rest =
    .ok ⟨⟨.v6 (octetsAt 16 rest 0),portAt rest 32⟩,⟨.v6 (octetsAt 16 rest 16),portAt rest 34⟩⟩ := by
  have hcommand : ¬(0x21 : UInt8) &&& 0x0F = 0 := by decide
  simp [decodeV2,v2Header,v2Sig,h,hcommand]

theorem decodeV2_block (e : Endpoints) (len : ℕ) (tlvs : List UInt8) :
    decodeV2 (v2Header e.family len) (e.block++tlvs) = .ok e.header := by
  cases e with
  | v4 src dst sport dport =>
    obtain ⟨hsrc,hdst,hsport,hdport⟩ := addressBlock_fields src dst sport dport tlvs
    have hlen : 12 ≤ (addressBlock src dst sport dport++tlvs).length := by
      rw [List.length_append,length_addressBlock]
      omega
    have hdecode := decodeV2_v4 len hlen
    rwa [hsrc,hdst,hsport,hdport] at hdecode
  | v6 src dst sport dport =>
    obtain ⟨hsrc,hdst,hsport,hdport⟩ := addressBlock_fields src dst sport dport tlvs
    have hlen : 36 ≤ (addressBlock src dst sport dport++tlvs).length := by
      rw [List.length_append,length_addressBlock]
      omega
    have hdecode := decodeV2_v6 len hlen
    rwa [hsrc,hdst,hsport,hdport] at hdecode

theorem peek_encodeV2 (e : Endpoints) (tlvs : List UInt8) (payload : Seq UInt8)
    (hlen : (e.block++tlvs).length ≤ 65535) :
    peek ((Seq.ofList (encodeV2 e tlvs)).append payload) = .ok (some e.header,payload) := by
  set len := (e.block++tlvs).length with hdef
  set input := (Seq.ofList (encodeV2 e tlvs)).append payload with hinput
  have hheader : (v2Header e.family len).length = 16 := rfl
  have hstart : input = (Seq.ofList (v2Header e.family len)).append
      ((Seq.ofList (e.block++tlvs)).append payload) := by
    rw [hinput,encodeV2,Seq.ofList_append,Seq.append_assoc]
  have htake : ∀ n ≤ 16, input.take n = (v2Header e.family len).take n := fun n hn => take_eq_of_append hstart hn
  have hdrop : input.drop 16 = (Seq.ofList (e.block++tlvs)).append payload := by
    rw [← hheader]
    exact (eq_drop_of_append _ hstart).symm
  have hsixteen : input.take 16 = v2Header e.family len := htake 16 le_rfl
  have hlenField := v2Len_v2Header e.family hlen
  have hrest : (input.drop 16).take len = e.block++tlvs := by
    rw [hdrop,take_ofList_append,hdef]
    simp
  have hafter : input.drop (16+len) = payload := by
    rw [Seq.dropn_add,hdrop,hdef]
    exact (eq_drop_of_append _ rfl).symm
  have hv1 : input.take 6 ≠ v1Sig := by
    rw [htake 6 (by omega)]
    exact fun h => absurd (congrArg List.head? h) (by simp [v2Header,v2Sig,v1Sig])
  have hv2 : input.take 12 = v2Sig := htake 12 (by omega)
  have hpeek : peekV2 input = .ok (e.header,payload) := by
    simp only [peekV2,hsixteen,hlenField,hrest,hafter]
    rw [if_neg (by omega),if_neg (by omega),decodeV2_block]
    rfl
  simp only [peek,if_neg hv1,if_pos hv2,hpeek,Except.map]

/-- A v2 header is read back as it was written, whatever follows the addresses in it, and the
payload is delivered after it. -/
theorem maybeReadProxyHeader_encodeV2 [AsyncRead UInt8 S] [LawfulRead UInt8 S] (e : Endpoints)
    (tlvs : List UInt8) (payload : Seq UInt8) (stream : S) (hlen : (e.block++tlvs).length ≤ 65535)
    (hstream : LawfulRead.rest stream = (Seq.ofList (encodeV2 e tlvs)).append payload) :
    ∃ ps, maybeReadProxyHeader stream = .ok (some e.header,ps) ∧ Delivers ps payload := by
  have hpeek := peek_encodeV2 e tlvs payload hlen
  rw [← hstream] at hpeek
  obtain ⟨ps,hread,hrest⟩ := ok_of_peek hpeek
  exact ⟨ps,hread,hrest ▸ delivers_rest ps⟩

def sampleEndpoints : Endpoints := .v4 (ipv4 192 0 2 7) (ipv4 198 51 100 1) 50000 443

def samplePayload : List UInt8 := [0x47,0x45,0x54,0x20,0x2F]

/-- With a four-byte TLV, and read five bytes at a time. -/
theorem maybeReadProxyHeader_encodeV2_sample :
    (sampleEndpoints.block++[0x04,0x00,0x01,0xFF]).length ≤ 65535 ∧
    ∃ ps, maybeReadProxyHeader (⟨(Seq.ofList (encodeV2 sampleEndpoints [0x04,0x00,0x01,0xFF])).append
        (Seq.ofList samplePayload),Stream'.const 5⟩ : Scheduled UInt8) = .ok (some sampleEndpoints.header,ps) ∧
      Delivers ps (Seq.ofList samplePayload) :=
  ⟨by decide,maybeReadProxyHeader_encodeV2 sampleEndpoints _ _ _ (by decide) rfl⟩

end V2

section V1

/-- Words without blanks are split apart where they were put together. -/
theorem splitWhitespace_intercalate {words : List Text} (hne : words ≠ [])
    (hwords : ∀ w ∈ words, w ≠ [] ∧ ∀ c ∈ w, isWhitespace c = false) :
    splitWhitespace (List.intercalate [' '] words) = words := by
  have hsplit : (List.intercalate [' '] words).splitOnP isWhitespace = words := by
    induction words with
    | nil => exact absurd rfl hne
    | cons w words ih =>
      have hw := (hwords w List.mem_cons_self).2
      cases words with
      | nil =>
        rw [List.intercalate_singleton]
        exact List.splitOnP_eq_singleton hw
      | cons w' words =>
        have hrest := ih (List.cons_ne_nil w' words) fun v hv => hwords v (List.mem_cons_of_mem w hv)
        rw [List.intercalate_cons_cons,List.append_assoc,List.singleton_append,
          List.splitOnP_append_cons_of_forall_mem hw ' ' rfl,hrest]
  rw [splitWhitespace,hsplit,List.filter_eq_self]
  intro w hw
  simpa using (hwords w hw).1

def Endpoints.protocol : Endpoints → Text
  | .v4 .. => "TCP4".toList
  | .v6 .. => "TCP6".toList

def Endpoints.words (e : Endpoints) : List Text :=
  ["PROXY".toList,e.protocol,e.header.src.ip.display,e.header.dst.ip.display,
    decimal e.header.src.port.toNat,decimal e.header.dst.port.toNat]

def Endpoints.line (e : Endpoints) : Text := List.intercalate [' '] e.words

def encodeV1 (e : Endpoints) : List UInt8 := asBytes (e.line++"\r\n".toList)

abbrev IsWordChar (c : Char) : Prop := isWhitespace c = false ∧ c.toNat ≤ 127

-- stated over `List.all`: deciding `∀ c ∈ w, P c` itself may go through all characters there are
theorem word_of_all {P : Char → Prop} [DecidablePred P] {w : Text} (hne : w ≠ [])
    (h : w.all (fun c => decide (P c)) = true) : w ≠ [] ∧ ∀ c ∈ w, P c :=
  ⟨hne,fun c hc => of_decide_eq_true (List.all_eq_true.mp h c hc)⟩

theorem isWordChar_of_isPrinted {c : Char} (h : IsPrinted c) : IsWordChar c := by
  rcases h with rfl | rfl | ⟨d,hd,rfl⟩
  · decide
  · decide
  · interval_cases d <;> decide

theorem Endpoints.words_spec (e : Endpoints) {w : Text} (hw : w ∈ e.words) :
    w ≠ [] ∧ ∀ c ∈ w, IsWordChar c := by
  have hip : ∀ ip : IpAddr, ip.display ≠ [] ∧ ∀ c ∈ ip.display, IsWordChar c := by
    intro ip
    refine ⟨?_,fun c hc => isWordChar_of_isPrinted (isPrinted_of_mem_display hc)⟩
    intro hnil
    have hparse := parseIpAddr_display ip
    rw [hnil] at hparse
    cases hparse
  have hport : ∀ n : ℕ, decimal n ≠ [] ∧ ∀ c ∈ decimal n, IsWordChar c := fun n =>
    ⟨Nat.toDigits_ne_nil,fun c hc => isWordChar_of_isPrinted (isPrinted_of_mem_decimal hc)⟩
  simp only [words,List.mem_cons,List.not_mem_nil,or_false] at hw
  rcases hw with rfl | rfl | rfl | rfl | rfl | rfl
  · exact word_of_all (by decide) (by decide)
  · cases e with
    | v4 => exact @word_of_all IsWordChar _ "TCP4".toList (by decide) (by decide)
    | v6 => exact @word_of_all IsWordChar _ "TCP6".toList (by decide) (by decide)
  · exact hip _
  · exact hip _
  · exact hport _
  · exact hport _

theorem splitWhitespace_line (e : Endpoints) : splitWhitespace e.line = e.words :=
  splitWhitespace_intercalate (List.cons_ne_nil _ _) fun _ hw =>
    ⟨(e.words_spec hw).1,fun c hc => ((e.words_spec hw).2 c hc).1⟩

theorem parseSocket_display (addr : SocketAddr) :
    parseSocket addr.ip.display (decimal addr.port.toNat) = .ok addr := by
  have hlt := addr.port.toNat_lt
  have hport : parseUint 65535 (decimal addr.port.toNat) = .ok addr.port.toNat := parseUint_decimal (by omega)
  simp [parseSocket,parseAddr,parsePort,parseIpAddr_display,hport,bind,Except.bind,pure,Except.pure]

/-- A line in the standard form is parsed back to the addresses it was printed from. -/
theorem parseV1Line_line (e : Endpoints) : parseV1Line e.line = .ok e.header := by
  have hprotocol : e.protocol ≠ "UNKNOWN".toList := by
    cases e with
    | v4 => exact (by decide : "TCP4".toList ≠ "UNKNOWN".toList)
    | v6 => exact (by decide : "TCP6".toList ≠ "UNKNOWN".toList)
  simp only [parseV1Line,splitWhitespace_line,Endpoints.words,ne_eq,not_true_eq_false,if_false,if_neg hprotocol,
    parseSocket_display]
  rfl

theorem mem_line {e : Endpoints} {c : Char} (h : c ∈ e.line) : c = ' ' ∨ IsWordChar c := by
  have hmem : ∀ words : List Text, c ∈ List.intercalate [' '] words → c = ' ' ∨ ∃ w ∈ words, c ∈ w := by
    intro words
    induction words with
    | nil => simp
    | cons w words ih =>
      cases words with
      | nil => exact fun hc => Or.inr ⟨w,List.mem_singleton_self w,by rwa [List.intercalate_singleton] at hc⟩
      | cons w' words =>
        rw [List.intercalate_cons_cons]
        intro hc
        rcases List.mem_append.mp hc with hc | hc
        · rcases List.mem_append.mp hc with hc | hc
          · exact Or.inr ⟨w,List.mem_cons_self,hc⟩
          · exact Or.inl (List.mem_singleton.mp hc)
        · rcases ih hc with hblank | ⟨v,hv,hcv⟩
          · exact Or.inl hblank
          · exact Or.inr ⟨v,List.mem_cons_of_mem w hv,hcv⟩
  rcases hmem e.words h with hblank | ⟨w,hw,hc⟩
  · exact Or.inl hblank
  · exact Or.inr ((e.words_spec hw).2 c hc)

theorem asBytes_line (e : Endpoints) : asBytes e.line = e.line.map fun c => UInt8.ofNat c.toNat := by
  apply asBytes_of_ascii
  intro c hc
  rcases mem_line hc with rfl | hword
  · decide
  · exact hword.2

/-- The longest line, of two IPv6 addresses in full, has 102 bytes. -/
theorem length_asBytes_line (e : Endpoints) : (asBytes e.line).length ≤ 102 := by
  have hprotocol : e.protocol.length = 4 := by cases e <;> rfl
  have hport : ∀ n : UInt16, (decimal n.toNat).length ≤ 5 := by
    intro n
    have hlt := n.toNat_lt
    exact length_toDigits_le (by omega) (by omega) (by omega)
  have hsrc := length_display e.header.src.ip
  have hdst := length_display e.header.dst.ip
  have hsport := hport e.header.src.port
  have hdport := hport e.header.dst.port
  rw [asBytes_line,List.length_map]
  simp only [Endpoints.line,Endpoints.words,List.intercalate_cons_cons,List.intercalate_singleton,
    List.length_append,hprotocol]
  have hproxy : "PROXY".toList.length = 5 := rfl
  have hblank : [' '].length = 1 := rfl
  omega

theorem no_cr_line (e : Endpoints) : (0x0D : UInt8) ∉ asBytes e.line := by
  rw [asBytes_line]
  intro hmem
  obtain ⟨c,hc,hbyte⟩ := List.mem_map.mp hmem
  rcases mem_line hc with rfl | ⟨hblank,hascii⟩
  · exact absurd hbyte (by decide)
  · have hvalue := congrArg UInt8.toNat hbyte
    simp only [UInt8.toNat_ofNat'] at hvalue
    have hcr : c.toNat = 13 := by
      have h13 : (0x0D : UInt8).toNat = 13 := rfl
      omega
    simp [isWhitespace,hcr] at hblank

/-- The scan passes over bytes without a carriage return. -/
theorem crlfPosition_of_no_cr {before : List UInt8} (h : (0x0D : UInt8) ∉ before) (after : List UInt8) :
    crlfPosition (before++0x0D::0x0A::after) = some before.length := by
  rw [crlfPosition_eq_some]
  constructor
  · simp
  · rintro i hi ⟨hcr,-⟩
    rw [List.getElem?_append_left hi] at hcr
    exact h (List.mem_of_getElem? hcr)

theorem peek_encodeV1 (e : Endpoints) (payload : Seq UInt8) :
    peek ((Seq.ofList (encodeV1 e)).append payload) = .ok (some e.header,payload) := by
  set input := (Seq.ofList (encodeV1 e)).append payload with hinput
  have hlen := length_asBytes_line e
  have hencode : encodeV1 e = asBytes e.line++[0x0D,0x0A] := by
    rw [encodeV1,asBytes_append]
    rfl
  have htake : input.take 109 = asBytes e.line++0x0D::0x0A::payload.take (107-(asBytes e.line).length) := by
    have hleft : 109-(asBytes e.line++[0x0D,0x0A]).length = 107-(asBytes e.line).length := by
      simp
    rw [hinput,hencode,take_ofList_append,List.take_of_length_le (by simp; omega),hleft,List.append_assoc]
    rfl
  have hpos : crlfPosition (input.take 109) = some (asBytes e.line).length := by
    rw [htake]
    exact crlfPosition_of_no_cr (no_cr_line e) _
  have hline : input.take (asBytes e.line).length = asBytes e.line := by
    rw [hinput,take_ofList_append,hencode]
    simp
  have hafter : input.drop ((asBytes e.line).length+2) = payload := by
    have hlength : (asBytes e.line).length+2 = (encodeV1 e).length := by simp [hencode]
    rw [hlength]
    exact (eq_drop_of_append _ hinput).symm
  have hsig : input.take 6 = v1Sig := by
    obtain ⟨more,hmore⟩ : ∃ more, encodeV1 e = v1Sig++more := ⟨_,asBytes_append "PROXY ".toList _⟩
    rw [hinput,hmore,Seq.ofList_append,Seq.append_assoc]
    exact take_eq_of_append rfl le_rfl
  have hdecode : decodeV1 (asBytes e.line) = .ok e.header := by
    rw [decodeV1,fromUtf8_asBytes]
    exact parseV1Line_line e
  simp only [peek,if_pos hsig,peekV1,hpos,hline,hafter,hdecode,Except.map]

/-- A v1 header is read back as it was written, source and destination in their places, and the
payload is delivered after it. -/
theorem maybeReadProxyHeader_encodeV1 [AsyncRead UInt8 S] [LawfulRead UInt8 S] (e : Endpoints)
    (payload : Seq UInt8) (stream : S)
    (hstream : LawfulRead.rest stream = (Seq.ofList (encodeV1 e)).append payload) :
    ∃ ps, maybeReadProxyHeader stream = .ok (some e.header,ps) ∧ Delivers ps payload := by
  have hpeek := peek_encodeV1 e payload
  rw [← hstream] at hpeek
  obtain ⟨ps,hread,hrest⟩ := ok_of_peek hpeek
  exact ⟨ps,hread,hrest ▸ delivers_rest ps⟩

example : sampleEndpoints.line = "PROXY TCP4 192.0.2.7 198.51.100.1 50000 443".toList := by decide

theorem maybeReadProxyHeader_encodeV1_sample :
    ∃ ps, maybeReadProxyHeader (⟨(Seq.ofList (encodeV1 sampleEndpoints)).append (Seq.ofList samplePayload),
        Stream'.const 5⟩ : Scheduled UInt8) = .ok (some sampleEndpoints.header,ps) ∧
      Delivers ps (Seq.ofList samplePayload) :=
  maybeReadProxyHeader_encodeV1 sampleEndpoints _ _ rfl

end V1

end ProxyProtocol
end OxiGate
