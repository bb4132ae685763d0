import OxiGate.ProxyProtocol

/-! Peeking at a PROXY header as an operation on the whole byte stream.
`peek` knows nothing of reads; the incremental reader is shown to compute it
however its stream is cut, and to keep every byte it does not consume. -/
namespace OxiGate
namespace ProxyProtocol

open Stream' (Seq)
open ByteReader Net RustText

variable {S T : Type}

def StartsWith (input : Seq UInt8) (sig : List UInt8) : Prop := input.take sig.length = sig

def CrlfAt (input : Seq UInt8) (pos : ℕ) : Prop :=
  input.get? pos = some 0x0D ∧ input.get? (pos+1) = some 0x0A

def FirstCrlfAt (input : Seq UInt8) (pos : ℕ) : Prop :=
  CrlfAt input pos ∧ ∀ i < pos, ¬CrlfAt input i

def peekV1 (input : Seq UInt8) : Except ProxyError (ProxyHeader × Seq UInt8) :=
  match crlfPosition (input.take 109) with
  | some pos => (decodeV1 (input.take pos)).map fun header => (header,input.drop (pos+2))
  | none => .error (if (input.take 109).length < 109 then .v1Eof else .v1TooLong)

def peekV2 (input : Seq UInt8) : Except ProxyError (ProxyHeader × Seq UInt8) :=
  let hdr := input.take 16
  let rest := (input.drop 16).take (v2Len hdr)
  if hdr.length < 16 then .error .v2Eof
  else if rest.length < v2Len hdr then .error (.io unexpectedEof)
  else (decodeV2 hdr rest).map fun header => (header,input.drop (16+v2Len hdr))

/-- The header of a stream, if it has one, and the bytes that follow it. -/
def peek (input : Seq UInt8) : Except ProxyError (Option ProxyHeader × Seq UInt8) :=
  if input.take 6 = v1Sig then (peekV1 input).map fun r => (some r.1,r.2)
  else if input.take 12 = v2Sig then (peekV2 input).map fun r => (some r.1,r.2)
  else .ok (none,input)

/-! The wrapper delivers its prefix and then the stream. -/

instance [AsyncRead UInt8 S] [LawfulRead UInt8 S] : LawfulRead UInt8 (PrefixedStream S) where
  rest ps := (Seq.ofList (ps.prefixBytes.drop ps.prefixPos)).append (LawfulRead.rest ps.inner)
  read_spec ps n := by
    by_cases h : ps.prefixPos < ps.prefixBytes.length
    · let left := ps.prefixBytes.drop ps.prefixPos
      have hleft : left ≠ [] := by simpa [left] using h
      refine ⟨left.take (min left.length n),
        { ps with prefixPos := ps.prefixPos+min left.length n },?_,?_,?_,?_⟩
      · simp only [AsyncRead.read,PrefixedStream.pollRead,if_pos h,left]
      · rw [← Seq.append_assoc,← Seq.ofList_append,← List.drop_drop,List.take_append_drop]
      · simp
      · intro hn hnil
        have hpos := List.length_pos_of_ne_nil hleft
        rcases List.take_eq_nil_iff.mp hnil with h0 | h0
        · omega
        · exact absurd h0 hleft
    · obtain ⟨piece,s',hread,hrest,hlen,heof⟩ := LawfulRead.read_spec ps.inner n
      have hnil : ps.prefixBytes.drop ps.prefixPos = [] :=
        List.drop_eq_nil_of_le (Nat.le_of_not_lt h)
      refine ⟨piece,{ ps with inner := s' },?_,?_,hlen,?_⟩
      · simp only [AsyncRead.read,PrefixedStream.pollRead,if_neg h]
        rw [hread]
      · simpa [hnil] using hrest
      · intro hn hp
        simpa [hnil] using heof hn hp

@[simp] theorem rest_new [AsyncRead UInt8 S] [LawfulRead UInt8 S] (s : S) (l : List UInt8) :
    LawfulRead.rest (PrefixedStream.new s l) =
      (Seq.ofList l).append (LawfulRead.rest s) := rfl

def ConsumedAtMost [AsyncRead UInt8 S] [LawfulRead UInt8 S] (limit : ℕ) (input : Seq UInt8)
    (stream : S) : Prop :=
  ∃ consumed : List UInt8, input = (Seq.ofList consumed).append (LawfulRead.rest stream) ∧
    consumed.length ≤ limit

section Filling

variable [AsyncRead UInt8 S] [LawfulRead UInt8 S]

/-- A filled buffer and the stream behind it still make up the input. The loop
stops short of its target only at the end of the input. -/
theorem fill_spec (capacity target : ℕ) (htarget : target ≤ capacity) (input : Seq UInt8)
    (first : List UInt8) (stream : S)
    (hinput : input = (Seq.ofList first).append (LawfulRead.rest stream))
    (hcap : first.length ≤ capacity) :
    ∃ buf stream', input = (Seq.ofList buf).append (LawfulRead.rest stream') ∧
      buf.length ≤ capacity ∧
      ((fill capacity target first stream = .ok (.full buf,stream') ∧ target ≤ buf.length) ∨
        (fill capacity target first stream = .ok (.eof buf,stream') ∧ buf.length < target ∧
          input = Seq.ofList buf)) := by
  induction h : target-first.length using Nat.strong_induction_on generalizing first stream with
  | _ n ih =>
    rw [fill]
    by_cases hlt : first.length < target
    · obtain ⟨piece,s',hread,hrest,hlen,heof⟩ :=
        LawfulRead.read_spec stream (capacity-first.length)
      rw [if_pos hlt,hread]
      cases piece with
      | nil =>
        have hend := heof (by omega) rfl
        refine ⟨first,s',?_,hcap,Or.inr ⟨rfl,hlt,?_⟩⟩
        · rw [hinput,hrest]
          simp
        · rw [hinput,hend]
          simp
      | cons b bs =>
        simp only [List.length_cons] at hlen
        apply ih (target-(first++b::bs).length) (by simp; omega) (first++b::bs) s' _
          (by simp; omega) rfl
        rw [hinput,hrest,Seq.ofList_append,Seq.append_assoc]
    · rw [if_neg hlt]
      exact ⟨first,stream,hinput,hcap,Or.inl ⟨rfl,Nat.le_of_not_lt hlt⟩⟩

theorem take_eq_of_append {input rest : Seq UInt8} {buf : List UInt8} {n : ℕ}
    (h : input = (Seq.ofList buf).append rest) (hn : n ≤ buf.length) :
    input.take n = buf.take n := by
  rw [h,take_ofList_append,Nat.sub_eq_zero_of_le hn]
  simp

theorem take_ofList (buf : List UInt8) (n : ℕ) : (Seq.ofList buf).take n = buf.take n := by
  have h := take_ofList_append buf Seq.nil n
  simpa using h

def TakesExactly (len : ℕ) (stream : S) (r : Except (Failure S) (List UInt8 × S)) : Prop :=
  ∃ stream',
    (r = .ok ((LawfulRead.rest stream).take len,stream') ∧
      ((LawfulRead.rest stream).take len).length = len ∧
      LawfulRead.rest stream' = (LawfulRead.rest stream).drop len) ∨
    (r = .error ⟨.io unexpectedEof,stream'⟩ ∧ ((LawfulRead.rest stream).take len).length < len ∧
      ConsumedAtMost len (LawfulRead.rest stream) stream')

theorem readExact_spec (len : ℕ) (stream : S) : TakesExactly len stream (readExact len stream) := by
  obtain ⟨buf,stream',hinput,hcap,⟨hfill,hlen⟩ | ⟨hfill,hlen,hend⟩⟩ :=
    fill_spec len len le_rfl (LawfulRead.rest stream) [] stream (by simp) (by simp)
  · have hbuf : buf.length = len := by omega
    have htake : (LawfulRead.rest stream).take len = buf := by
      rw [take_eq_of_append hinput hlen]
      simp [← hbuf]
    refine ⟨stream',Or.inl ⟨?_,by rw [htake,hbuf],?_⟩⟩
    · simp [readExact,hfill,htake,bind,Except.bind]
    · rw [← hbuf]
      exact eq_drop_of_append buf hinput
  · refine ⟨stream',Or.inr ⟨by simp [readExact,hfill,bind,Except.bind],?_,buf,hinput,hcap⟩⟩
    rw [hend,take_ofList]
    simpa using hlen

theorem readV2Rest_spec (len : ℕ) (stream : S) :
    TakesExactly len stream (readV2Rest len stream) := by
  by_cases hpos : 0 < len
  · simpa only [readV2Rest,if_pos hpos] using readExact_spec len stream
  · have hzero : len = 0 := by omega
    subst hzero
    exact ⟨stream,Or.inl ⟨by simp [readV2Rest],by simp,by simp⟩⟩

end Filling

section CrlfScan

theorem crlfPosition_cons (a b : UInt8) (bs : List UInt8) :
    crlfPosition (a::b::bs) =
      if a = 0x0D ∧ b = 0x0A then some 0 else (crlfPosition (b::bs)).map (·+1) := rfl

theorem crlfPosition_eq_some (l : List UInt8) (pos : ℕ) :
    crlfPosition l = some pos ↔ (l[pos]? = some 0x0D ∧ l[pos+1]? = some 0x0A) ∧
      ∀ i < pos, ¬(l[i]? = some 0x0D ∧ l[i+1]? = some 0x0A) := by
  induction l generalizing pos with
  | nil => simp [crlfPosition]
  | cons a l ih =>
    cases l with
    | nil => cases pos <;> simp [crlfPosition]
    | cons b bs =>
      rw [crlfPosition_cons]
      by_cases h : a = 0x0D ∧ b = 0x0A
      · rw [if_pos h]
        constructor
        · intro hp
          cases hp
          simp [h]
        · rintro ⟨-,hmin⟩
          cases pos with
          | zero => rfl
          | succ pos => exact absurd (by simp [h]) (hmin 0 (Nat.succ_pos pos))
      · rw [if_neg h]
        cases pos with
        | zero => simpa using fun ha hb => h ⟨ha,hb⟩
        | succ pos =>
          simp only [Option.map_eq_some_iff,Nat.add_right_cancel_iff,exists_eq_right,ih]
          apply and_congr
          · simp
          · constructor
            · intro hmin i hi
              cases i with
              | zero => simpa using fun ha hb => h ⟨ha,hb⟩
              | succ i => simpa using hmin i (by omega)
            · intro hmin i hi
              simpa using hmin (i+1) (by omega)

theorem crlfPosition_lt {l : List UInt8} {pos : ℕ} (h : crlfPosition l = some pos) :
    pos+1 < l.length := by
  have hget := ((crlfPosition_eq_some l pos).mp h).1.2
  exact (List.getElem?_eq_some_iff.mp hget).1

theorem crlfPosition_append {l : List UInt8} {pos : ℕ} (m : List UInt8)
    (h : crlfPosition l = some pos) : crlfPosition (l++m) = some pos := by
  have hlt := crlfPosition_lt h
  rw [crlfPosition_eq_some] at h ⊢
  have hget : ∀ i, i < l.length → (l++m)[i]? = l[i]? := fun i hi => List.getElem?_append_left hi
  rw [hget pos (by omega),hget (pos+1) hlt]
  refine ⟨h.1,fun i hi => ?_⟩
  rw [hget i (by omega),hget (i+1) (by omega)]
  exact h.2 i hi

/-- A CRLF found in a prefix is the first CRLF of the stream. -/
theorem firstCrlfAt_of_take {input : Seq UInt8} {n pos : ℕ}
    (h : crlfPosition (input.take n) = some pos) : FirstCrlfAt input pos := by
  have hlt := crlfPosition_lt h
  have hle : (input.take n).length ≤ n := Seq.length_take_le
  rw [crlfPosition_eq_some] at h
  have hget : ∀ i, i < n → (input.take n)[i]? = input.get? i := fun i hi => by
    rw [Seq.getElem?_take,if_pos hi]
  rw [hget pos (by omega),hget (pos+1) (by omega)] at h
  refine ⟨h.1,fun i hi => ?_⟩
  have hi' := h.2 i hi
  rwa [hget i (by omega),hget (i+1) (by omega)] at hi'

end CrlfScan

/-- An incremental result against the answer for the whole stream: the same
value and the same bytes to follow, or the same error within `limit` bytes. -/
def Agrees [AsyncRead UInt8 S] [LawfulRead UInt8 S] {α β : Type} (limit : ℕ) (input : Seq UInt8)
    (view : α → β × Seq UInt8) : Except (Failure S) α → Except ProxyError (β × Seq UInt8) → Prop
  | .ok a, .ok b => view a = b
  | .error f, .error e => f.error = e ∧ ConsumedAtMost limit input f.stream
  | _, _ => False

section Headers

variable [AsyncRead UInt8 S] [LawfulRead UInt8 S]

/-- The v1 loop computes `peekV1` from any buffer it may have filled so far. -/
theorem parseV1_agrees (input : Seq UInt8) (buf : List UInt8) (stream : S)
    (hinput : input = (Seq.ofList buf).append (LawfulRead.rest stream))
    (hlen : buf.length ≤ 109) :
    Agrees 109 input (fun r => (r.1.1,(Seq.ofList r.1.2).append (LawfulRead.rest r.2)))
      (parseV1 buf stream) (peekV1 input) := by
  induction h : 109-buf.length using Nat.strong_induction_on generalizing buf stream with
  | _ n ih =>
    have htake : input.take 109 = buf++(LawfulRead.rest stream).take (109-buf.length) := by
      rw [hinput,take_ofList_append,List.take_of_length_le hlen]
    rw [parseV1]
    cases hpos : crlfPosition buf with
    | some pos =>
      have hlt := crlfPosition_lt hpos
      have hline : input.take pos = buf.take pos := take_eq_of_append hinput (by omega)
      have hdrop : input.drop (pos+2) =
          (Seq.ofList (buf.drop (pos+2))).append (LawfulRead.rest stream) := by
        rw [hinput,drop_ofList_append,Nat.sub_eq_zero_of_le (by omega)]
        simp
      simp only [peekV1,htake,crlfPosition_append _ hpos,hline,hdrop]
      cases decodeV1 (buf.take pos) with
      | ok header => rfl
      | error e => exact ⟨rfl,buf,hinput,hlen⟩
    | none =>
      by_cases hlong : 108 < buf.length
      · have hfull : 109-buf.length = 0 := by omega
        simp only [peekV1,htake,hfull,Seq.take_zero,List.append_nil,hpos,if_pos hlong,
          if_neg (show ¬buf.length < 109 by omega)]
        exact ⟨rfl,buf,hinput,hlen⟩
      · obtain ⟨piece,s',hread,hrest,hpiece,heof⟩ := LawfulRead.read_spec stream 1
        simp only [if_neg hlong,hread]
        cases piece with
        | nil =>
          have hend := heof Nat.one_pos rfl
          simp only [peekV1,htake,hend,Seq.take_nil,List.append_nil,hpos,
            if_pos (show buf.length < 109 by omega)]
          refine ⟨rfl,buf,?_,hlen⟩
          rw [hinput,hrest]
          simp
        | cons b more =>
          cases more with
          | nil =>
            apply ih (109-(buf++[b]).length) (by simp; omega) (buf++[b]) s' _ (by simp; omega) rfl
            rw [hinput,hrest,Seq.ofList_append,Seq.append_assoc]
          | cons b' more => simp at hpiece

theorem v2Len_le (hdr : List UInt8) : v2Len hdr ≤ 65535 := by
  have h := UInt16.toNat_lt (portAt hdr 14)
  simp only [v2Len]
  omega

theorem parseV2_agrees (input : Seq UInt8) (hdr : List UInt8) (stream : S)
    (hinput : input = (Seq.ofList hdr).append (LawfulRead.rest stream))
    (hlen : hdr.length = 16) :
    Agrees (16+65535) input (fun r => (r.1,LawfulRead.rest r.2)) (parseV2 stream hdr)
      (peekV2 input) := by
  have hhdr : input.take 16 = hdr := by
    rw [take_eq_of_append hinput (by omega),List.take_of_length_le (by omega)]
  have hrest : input.drop 16 = LawfulRead.rest stream := by
    rw [← hlen]
    exact (eq_drop_of_append hdr hinput).symm
  have hbound := v2Len_le hdr
  have hshort : ¬hdr.length < 16 := by omega
  simp only [peekV2,hhdr,hrest,if_neg hshort]
  obtain ⟨stream',⟨hok,hexact,hafter⟩ | ⟨herr,hfew,consumed,hcons,hle⟩⟩ :=
    readV2Rest_spec (v2Len hdr) stream
  · have hdrop : input.drop (16+v2Len hdr) = LawfulRead.rest stream' := by
      rw [hafter,← hrest,Seq.dropn_add]
    simp only [parseV2,hok,bind,Except.bind,if_neg hexact.not_lt,hdrop]
    cases decodeV2 hdr ((LawfulRead.rest stream).take (v2Len hdr)) with
    | ok header => rfl
    | error e =>
      refine ⟨rfl,hdr++(LawfulRead.rest stream).take (v2Len hdr),?_,?_⟩
      · rw [hafter,Seq.ofList_append,Seq.append_assoc,take_append_drop]
        exact hinput
      · rw [List.length_append,hexact]
        omega
  · simp only [parseV2,herr,bind,Except.bind,if_pos hfew]
    refine ⟨rfl,hdr++consumed,?_,?_⟩
    · rw [hinput,hcons,Seq.ofList_append,Seq.append_assoc]
    · rw [List.length_append]
      omega

theorem Agrees.map {α α' β β' : Type} {limit : ℕ} {input : Seq UInt8} {view : α → β × Seq UInt8}
    {r : Except (Failure S) α} {spec : Except ProxyError (β × Seq UInt8)}
    (h : Agrees limit input view r spec) (view' : α' → β' × Seq UInt8) (f : α → α') (g : β → β')
    (hview : ∀ a, view' (f a) = (g (view a).1,(view a).2)) :
    Agrees limit input view' (r.map f) (spec.map fun b => (g b.1,b.2)) := by
  cases r with
  | error e =>
    cases spec with
    | error e' => exact h
    | ok b => exact h.elim
  | ok a =>
    cases spec with
    | error e' => exact h.elim
    | ok b =>
      have hb : view a = b := h
      subst hb
      exact hview a

/-- A finite stream starts with no signature longer than itself. -/
theorem take_ne_of_short {input : Seq UInt8} {buf sig : List UInt8} (n : ℕ)
    (hend : input = Seq.ofList buf) (hlen : buf.length < sig.length) : input.take n ≠ sig := by
  intro h
  have hl := congrArg List.length h
  rw [hend,take_ofList,List.length_take] at hl
  omega

/-- How far a rejected stream may have been read. -/
def peekLimit (input : Seq UInt8) : ℕ := if input.take 6 = v1Sig then 109 else 16+65535

/-- The staged reader computes `peek`, for every stream and every way to cut it. -/
theorem maybeReadProxyHeader_agrees (stream : S) :
    Agrees (peekLimit (LawfulRead.rest stream)) (LawfulRead.rest stream)
      (fun r => (r.1,LawfulRead.rest r.2)) (maybeReadProxyHeader stream)
      (peek (LawfulRead.rest stream)) := by
  set input := LawfulRead.rest stream with hstream
  obtain ⟨buf,s₁,hinput,hcap,⟨hfill,hlen⟩ | ⟨hfill,hlen,hend⟩⟩ :=
    fill_spec 16 6 (by omega) input [] stream (by simp [hstream]) (by simp)
  · have h6 : input.take 6 = buf.take 6 := take_eq_of_append hinput hlen
    by_cases hv1 : buf.take 6 = v1Sig
    · have hagree := (parseV1_agrees input buf s₁ hinput (by omega)).map
        (fun r => (r.1,LawfulRead.rest r.2))
        (fun r => (some r.1.1,PrefixedStream.new r.2 r.1.2)) some (fun _ => rfl)
      have hcode : maybeReadProxyHeader stream =
          (parseV1 buf s₁).map fun r => (some r.1.1,PrefixedStream.new r.2 r.1.2) := by
        simp only [maybeReadProxyHeader,hfill,bind,Except.bind,if_pos hv1]
        cases parseV1 buf s₁ <;> rfl
      rw [hcode]
      simpa only [peek,peekLimit,h6,if_pos hv1] using hagree
    · obtain ⟨buf',s₂,hinput',hcap',⟨hfill',hlen'⟩ | ⟨hfill',hlen',hend'⟩⟩ :=
        fill_spec 16 12 (by omega) input buf s₁ hinput hcap
      · have h12 : input.take 12 = buf'.take 12 := take_eq_of_append hinput' hlen'
        by_cases hv2 : buf'.take 12 = v2Sig
        · obtain ⟨hdr,s₃,hinput'',hcap'',⟨hfill'',hlen''⟩ | ⟨hfill'',hlen'',hend''⟩⟩ :=
            fill_spec 16 16 le_rfl input buf' s₂ hinput' hcap'
          · have hdrTake : hdr.take 16 = hdr := List.take_of_length_le hcap''
            have hagree := (parseV2_agrees input hdr s₃ hinput'' (by omega)).map
              (fun r => (r.1,LawfulRead.rest r.2))
              (fun r => (some r.1,PrefixedStream.new r.2 [])) some (fun _ => by simp)
            have hcode : maybeReadProxyHeader stream =
                (parseV2 s₃ hdr).map fun r => (some r.1,PrefixedStream.new r.2 []) := by
              simp only [maybeReadProxyHeader,hfill,hfill',hfill'',bind,Except.bind,if_neg hv1,
                if_pos hv2,hdrTake]
              cases parseV2 s₃ hdr <;> rfl
            rw [hcode]
            simpa only [peek,peekLimit,h6,h12,if_neg hv1,if_pos hv2] using hagree
          · have hshort : (input.take 16).length < 16 := by
              rw [hend'',take_ofList]
              simpa using hlen''
            simp only [maybeReadProxyHeader,hfill,hfill',hfill'',bind,Except.bind,if_neg hv1,
              if_pos hv2,peek,peekLimit,peekV2,h6,h12,if_pos hshort,Except.map]
            exact ⟨rfl,hdr,hinput'',by omega⟩
        · simp only [maybeReadProxyHeader,hfill,hfill',bind,Except.bind,if_neg hv1,if_neg hv2,
            peek,h6,h12]
          exact Prod.ext rfl hinput'.symm
      · have hne : input.take 12 ≠ v2Sig := take_ne_of_short 12 hend' hlen'
        simp only [maybeReadProxyHeader,hfill,hfill',bind,Except.bind,if_neg hv1,peek,h6,
          if_neg hne]
        exact Prod.ext rfl hinput'.symm
  · have hne₁ : input.take 6 ≠ v1Sig := take_ne_of_short 6 hend hlen
    have hne₂ : input.take 12 ≠ v2Sig := take_ne_of_short 12 hend (by simp [v2Sig]; omega)
    simp only [maybeReadProxyHeader,hfill,bind,Except.bind,peek,if_neg hne₁,if_neg hne₂]
    exact Prod.ext rfl hinput.symm

end Headers

section Conservation

theorem peekV1_ok {input r : Seq UInt8} {header : ProxyHeader}
    (h : peekV1 input = .ok (header,r)) :
    ∃ pos, crlfPosition (input.take 109) = some pos ∧ decodeV1 (input.take pos) = .ok header ∧
      r = input.drop (pos+2) := by
  simp only [peekV1] at h
  cases hpos : crlfPosition (input.take 109) with
  | none =>
    rw [hpos] at h
    cases h
  | some pos =>
    rw [hpos] at h
    obtain ⟨header',hdecode,heq⟩ := ok_of_map h
    cases heq
    exact ⟨pos,rfl,hdecode,rfl⟩

theorem peekV2_ok {input r : Seq UInt8} {header : ProxyHeader}
    (h : peekV2 input = .ok (header,r)) :
    ¬(input.take 16).length < 16 ∧
      decodeV2 (input.take 16) ((input.drop 16).take (v2Len (input.take 16))) = .ok header ∧
      r = input.drop (16+v2Len (input.take 16)) := by
  simp only [peekV2] at h
  split at h
  · cases h
  · rename_i hlen
    split at h
    · cases h
    · obtain ⟨header',hdecode,heq⟩ := ok_of_map h
      cases heq
      exact ⟨hlen,hdecode,rfl⟩

theorem peek_ok {input r : Seq UInt8} {found : Option ProxyHeader} (h : peek input = .ok (found,r)) :
    (input.take 6 = v1Sig ∧ ∃ header, found = some header ∧ peekV1 input = .ok (header,r)) ∨
    (input.take 6 ≠ v1Sig ∧ input.take 12 = v2Sig ∧
      ∃ header, found = some header ∧ peekV2 input = .ok (header,r)) ∨
    (input.take 6 ≠ v1Sig ∧ input.take 12 ≠ v2Sig ∧ found = none ∧ r = input) := by
  unfold peek at h
  by_cases hv1 : input.take 6 = v1Sig
  · rw [if_pos hv1] at h
    obtain ⟨⟨header,r'⟩,hpeek,heq⟩ := ok_of_map h
    cases heq
    exact Or.inl ⟨hv1,header,rfl,hpeek⟩
  · rw [if_neg hv1] at h
    by_cases hv2 : input.take 12 = v2Sig
    · rw [if_pos hv2] at h
      obtain ⟨⟨header,r'⟩,hpeek,heq⟩ := ok_of_map h
      cases heq
      exact Or.inr (Or.inl ⟨hv1,hv2,header,rfl,hpeek⟩)
    · rw [if_neg hv2] at h
      cases h
      exact Or.inr (Or.inr ⟨hv1,hv2,rfl,rfl⟩)

theorem peek_none {input r : Seq UInt8} (h : peek input = .ok (none,r)) : r = input := by
  rcases peek_ok h with ⟨-,header,hnone,-⟩ | ⟨-,-,header,hnone,-⟩ | ⟨-,-,-,hr⟩
  · cases hnone
  · cases hnone
  · exact hr

theorem get?_of_header {input : Seq UInt8} (hlen : ¬(input.take 16).length < 16) {i : ℕ}
    (hi : i < 16) : input.get? i = some ((input.take 16).getD i 0) := by
  have hget := Seq.getElem?_take i 16 input
  rw [if_pos hi] at hget
  rw [← hget,List.getD_eq_getElem?_getD,List.getElem?_eq_getElem (by omega)]
  rfl

/-- The bytes that follow an accepted header. -/
def FollowsHeader (input rest : Seq UInt8) : Prop :=
  (StartsWith input v1Sig ∧ ∃ pos, FirstCrlfAt input pos ∧ rest = input.drop (pos+2)) ∨
  (StartsWith input v2Sig ∧ ∃ hi lo, input.get? 14 = some hi ∧ input.get? 15 = some lo ∧
    rest = input.drop (16+(fromBeBytes hi lo).toNat))

theorem peek_some {input r : Seq UInt8} {header : ProxyHeader}
    (h : peek input = .ok (some header,r)) : FollowsHeader input r := by
  rcases peek_ok h with ⟨hv1,header,-,hpeek⟩ | ⟨-,hv2,header,-,hpeek⟩ | ⟨-,-,hnone,-⟩
  · obtain ⟨pos,hpos,-,hr⟩ := peekV1_ok hpeek
    exact Or.inl ⟨hv1,pos,firstCrlfAt_of_take hpos,hr⟩
  · obtain ⟨hlen,-,hr⟩ := peekV2_ok hpeek
    exact Or.inr ⟨hv2,_,_,get?_of_header hlen (by omega),get?_of_header hlen (by omega),hr⟩
  · cases hnone

theorem peek_v1_without_crlf {input : Seq UInt8} (hv1 : StartsWith input v1Sig)
    (hnone : ∀ pos, ¬CrlfAt input pos) : ∃ e, peek input = .error e := by
  have hscan : crlfPosition (input.take 109) = none := by
    cases hpos : crlfPosition (input.take 109) with
    | none => rfl
    | some pos => exact absurd (firstCrlfAt_of_take hpos).1 (hnone pos)
  have hsig : input.take 6 = v1Sig := hv1
  simp only [peek,if_pos hsig,peekV1,hscan,Except.map]
  exact ⟨_,rfl⟩

def outcome {R : Type} (r : Except (Failure S) (Option ProxyHeader × R)) :
    Except ProxyError (Option ProxyHeader) :=
  match r with
  | .ok a => .ok a.1
  | .error f => .error f.error

theorem outcome_eq_peek [AsyncRead UInt8 S] [LawfulRead UInt8 S] (stream : S) :
    outcome (maybeReadProxyHeader stream) = (peek (LawfulRead.rest stream)).map Prod.fst := by
  have h := maybeReadProxyHeader_agrees stream
  cases hr : maybeReadProxyHeader stream <;> cases hp : peek (LawfulRead.rest stream) <;>
    rw [hr,hp] at h
  · simpa [outcome,Except.map] using h.1
  · exact h.elim
  · exact h.elim
  · simpa [outcome,Except.map] using congrArg Prod.fst h

theorem peek_of_ok [AsyncRead UInt8 S] [LawfulRead UInt8 S] {stream : S}
    {header : Option ProxyHeader} {ps : PrefixedStream S}
    (h : maybeReadProxyHeader stream = .ok (header,ps)) :
    peek (LawfulRead.rest stream) = .ok (header,LawfulRead.rest ps) := by
  have hagree := maybeReadProxyHeader_agrees stream
  rw [h] at hagree
  cases hp : peek (LawfulRead.rest stream) with
  | error e => rw [hp] at hagree; exact hagree.elim
  | ok b =>
    rw [hp] at hagree
    exact congrArg Except.ok hagree.symm

/-- Peeking loses, repeats and invents no byte, and two readers of one stream get
one answer. A v1 header that never ends is refused within 109 bytes. -/
theorem maybeReadProxyHeader_conserves [AsyncRead UInt8 S] [LawfulRead UInt8 S]
    [AsyncRead UInt8 T] [LawfulRead UInt8 T] (input : Seq UInt8) (s : S) (t : T)
    (hs : LawfulRead.rest s = input) (ht : LawfulRead.rest t = input) :
    outcome (maybeReadProxyHeader s) = outcome (maybeReadProxyHeader t) ∧
    outcome (maybeReadProxyHeader s) = (peek input).map Prod.fst ∧
    (∀ ps, maybeReadProxyHeader s = .ok (none,ps) → Delivers ps input) ∧
    (∀ header ps, maybeReadProxyHeader s = .ok (some header,ps) →
      ∃ rest, FollowsHeader input rest ∧ Delivers ps rest) ∧
    (StartsWith input v1Sig → (∀ pos, ¬CrlfAt input pos) →
      ∃ f, maybeReadProxyHeader s = .error f ∧ ConsumedAtMost 109 input f.stream) := by
  subst hs
  refine ⟨?_,outcome_eq_peek s,?_,?_,?_⟩
  · rw [outcome_eq_peek,outcome_eq_peek,ht]
  · intro ps h
    have hrest := peek_none (peek_of_ok h)
    rw [← hrest]
    exact delivers_rest ps
  · intro header ps h
    exact ⟨_,peek_some (peek_of_ok h),delivers_rest ps⟩
  · intro hv1 hnone
    obtain ⟨e,he⟩ := peek_v1_without_crlf hv1 hnone
    have hsig : (LawfulRead.rest s).take 6 = v1Sig := hv1
    have hagree := maybeReadProxyHeader_agrees s
    rw [he] at hagree
    cases hr : maybeReadProxyHeader s with
    | ok a => rw [hr] at hagree; exact hagree.elim
    | error f =>
      rw [hr] at hagree
      have hlimit : peekLimit (LawfulRead.rest s) = 109 := if_pos hsig
      exact ⟨f,rfl,hlimit ▸ hagree.2⟩

def unfinishedV1 : List UInt8 := asBytes "PROXY TCP4".toList

theorem unfinishedV1_no_crlf (pos : ℕ) : ¬CrlfAt (Seq.ofList unfinishedV1) pos := by
  rintro ⟨hcr,-⟩
  rw [Seq.ofList_get?] at hcr
  have hmem := List.mem_of_getElem? hcr
  revert hmem
  decide

def headerV1 : List UInt8 := asBytes "PROXY TCP4 10.0.0.1 10.0.0.2 4000 80\r\n".toList

def requestLine : List UInt8 := asBytes "GET /".toList

def headedV1 : List UInt8 := headerV1++requestLine

theorem FirstCrlfAt.unique {input : Seq UInt8} {pos pos' : ℕ} (h : FirstCrlfAt input pos)
    (h' : FirstCrlfAt input pos') : pos = pos' := by
  rcases Nat.lt_trichotomy pos pos' with hlt | heq | hlt
  · exact absurd h.1 (h'.2 pos hlt)
  · exact heq
  · exact absurd h'.1 (h.2 pos' hlt)

theorem rest_headedV1 {rest : Seq UInt8} (h : FollowsHeader (Seq.ofList headedV1) rest) :
    rest = Seq.ofList requestLine := by
  rcases h with ⟨-,pos,hpos,rfl⟩ | ⟨hv2,-⟩
  · have hfirst : FirstCrlfAt (Seq.ofList headedV1) 36 := by
      have hscan : crlfPosition ((Seq.ofList headedV1).take 109) = some 36 := by decide +kernel
      exact firstCrlfAt_of_take hscan
    have hlength : headerV1.length = 36+2 := by decide
    rw [hpos.unique hfirst,← hlength]
    exact (eq_drop_of_append headerV1 (Seq.ofList_append _ _)).symm
  · exact absurd hv2 (by unfold StartsWith; decide +kernel)

theorem found_of_outcome {R : Type} {r : Except (Failure S) (Option ProxyHeader × R)} {found : Option ProxyHeader}
    (h : outcome r = .ok found) : ∃ ps, r = .ok (found,ps) := by
  cases r with
  | error f => cases h
  | ok a =>
    cases h
    exact ⟨a.2,rfl⟩

/-- The bytes come one at a time. -/
def bytewise (bytes : List UInt8) : Scheduled UInt8 := ⟨Seq.ofList bytes,Stream'.const 1⟩

/-- A stream without a header is kept, a header is taken off, and one that does not end is refused. -/
theorem maybeReadProxyHeader_conserves_bytewise :
    (∃ ps, maybeReadProxyHeader (bytewise requestLine) = .ok (none,ps) ∧ Delivers ps (Seq.ofList requestLine)) ∧
    (∃ ps, maybeReadProxyHeader (bytewise headedV1) =
        .ok (some ⟨⟨.v4 (.ofFn ![10,0,0,1]),4000⟩,⟨.v4 (.ofFn ![10,0,0,2]),80⟩⟩,ps) ∧
      Delivers ps (Seq.ofList requestLine)) ∧
    outcome (maybeReadProxyHeader (bytewise unfinishedV1)) =
      outcome (maybeReadProxyHeader (⟨Seq.ofList unfinishedV1,Stream'.const 16⟩ : Scheduled UInt8)) ∧
    ∃ f, maybeReadProxyHeader (bytewise unfinishedV1) = .error f ∧
      ConsumedAtMost 109 (Seq.ofList unfinishedV1) f.stream := by
  have h (bytes : List UInt8) := maybeReadProxyHeader_conserves (Seq.ofList bytes) (bytewise bytes)
    (⟨Seq.ofList bytes,Stream'.const 16⟩ : Scheduled UInt8) rfl rfl
  refine ⟨?_,?_,(h unfinishedV1).1,(h unfinishedV1).2.2.2.2 rfl unfinishedV1_no_crlf⟩
  · obtain ⟨-,hpeek,hnone,-⟩ := h requestLine
    obtain ⟨ps,hps⟩ := found_of_outcome (hpeek.trans (by rfl))
    exact ⟨ps,hps,hnone ps hps⟩
  · obtain ⟨-,hpeek,-,hsome,-⟩ := h headedV1
    obtain ⟨ps,hps⟩ := found_of_outcome (hpeek.trans (by rfl))
    obtain ⟨rest,hfollows,hdelivers⟩ := hsome _ ps hps
    rw [rest_headedV1 hfollows] at hdelivers
    exact ⟨ps,hps,hdelivers⟩

end Conservation

end ProxyProtocol
end OxiGate
