import OxiGate.Delivery

/-! The fields of a client's request that are copied to an upstream. -/
namespace OxiGate
namespace Proxy

open RustText Net Http Lb BodyLimit Interaction

def standardHopByHop : List String :=
  ["connection","keep-alive","proxy-authenticate","proxy-authorization","te","trailer",
    "transfer-encoding","upgrade"]

def isTrailer (name : HeaderName) : Bool := name.asStr = "trailer" || name.asStr = "trailers"

def staysBehind (name : HeaderName) : Bool := name = HOST || standardHopByHop.contains name.asStr

def nominated (headers : HeaderMap) : List Text :=
  (headers.values CONNECTION).flatMap fun value =>
    (((fromUtf8 value.bytes).getD []).splitOn ',').map fun name => toAsciiLowercase (trim name)

def ProxyAttempt.withoutFields (a : ProxyAttempt) : ProxyAttempt :=
  { a with parts := { a.parts with headers := [] } }

/-- Apart from the two trailer names, the proxy stops the standard fields. -/
theorem isHopByHop_eq {name : HeaderName} (h : isTrailer name = false) :
    (decide (name = HOST) || isHopByHop name) = staysBehind name := by
  simp only [isTrailer,Bool.or_eq_false_iff,decide_eq_false_iff_not] at h
  obtain ⟨htrailer,htrailers⟩ := h
  have hlists : isHopByHop name = standardHopByHop.contains name.asStr := by
    rw [Bool.eq_iff_iff]
    simp [isHopByHop,standardHopByHop,htrailer,htrailers]
  rw [staysBehind,hlists]

def isCopied (name : HeaderName) : Bool := !(decide (name = HOST) || isHopByHop name)

theorem isCopied_eq {name : HeaderName} (h : isTrailer name = false) : isCopied name = !staysBehind name :=
  congrArg _ (isHopByHop_eq h)

section Copying

variable [HttpCrate]

def pushField (fields : Except String HeaderMap) (name : Except String HeaderName)
    (value : Except String HeaderValue) : Except String HeaderMap := do
  let fields ← fields
  let name ← name
  let value ← value
  pure (fields++[(name,value)])

theorem header_appendAll (headers : HeaderMap) (fields : Except String HeaderMap) (name : Except String HeaderName)
    (value : Except String HeaderValue) :
    Builder.header (fields.map (appendAll headers)) name value =
      (pushField fields name value).map (appendAll headers) := by
  cases fields with
  | error e => rfl
  | ok fields =>
    cases name with
    | error e => rfl
    | ok n =>
      cases value with
      | error e => rfl
      | ok v => exact congrArg Except.ok (appendAll_concat headers fields [(n,v)]).symm

theorem requestSet_appendAll (headers : HeaderMap) (sets : List (String × String)) (fields : Except String HeaderMap) :
    sets.foldl (fun b kv => Builder.header b (HttpCrate.headerName kv.1) (HttpCrate.headerValue kv.2.toList))
        (fields.map (appendAll headers)) =
      (sets.foldl (fun fields kv => pushField fields (HttpCrate.headerName kv.1) (HttpCrate.headerValue kv.2.toList))
        fields).map (appendAll headers) := by
  induction sets generalizing fields with
  | nil => rfl
  | cons kv sets ih => rw [List.foldl_cons,List.foldl_cons,header_appendAll,ih]

def addedFields (a : ProxyAttempt) : Except String HeaderMap :=
  let clientIp := a.remoteAddr.ip.display
  let fields := pushField (.ok []) (HttpCrate.headerName "X-Real-IP") (HttpCrate.headerValue clientIp)
  let fields := pushField fields (HttpCrate.headerName "X-Forwarded-For") (HttpCrate.headerValue clientIp)
  let fields := pushField fields (HttpCrate.headerName "X-Forwarded-Proto")
    (HttpCrate.headerValue (forwardedProto a.clientIsTls))
  let fields := a.headersCfg.requestSet.foldl
    (fun fields kv => pushField fields (HttpCrate.headerName kv.1) (HttpCrate.headerValue kv.2.toList)) fields
  match extractHost a.upstream.address with
  | some host =>
    match HttpCrate.headerValue host with
    | .ok value => pushField fields (.ok HOST) (.ok value)
    | .error _ => fields
  | none => fields

/-- The copied fields are appended first, and then what the proxy adds, which does not depend on them. -/
theorem requestHeaders_eq {a : ProxyAttempt} (h : a.preserveUpgrade = false) :
    requestHeaders a = (addedFields a).map (appendAll (ofFields (a.parts.headers.filter fun f => isCopied f.1))) := by
  have hstart : ∀ headers : HeaderMap, (Except.ok headers : Builder) = Except.map (appendAll headers) (Except.ok []) :=
    fun _ => rfl
  unfold requestHeaders addedFields
  simp only [copyFields_ok,h]
  rw [hstart (appendAll _ _),header_appendAll,header_appendAll,header_appendAll,requestSet_appendAll]
  cases extractHost a.upstream.address with
  | none => rfl
  | some host =>
    cases hvalue : HttpCrate.headerValue host with
    | error e => simp only [hvalue]; rfl
    | ok value =>
      simp only [hvalue]
      exact header_appendAll _ _ _ _

/-- The map keeps the values of a name together, and has a new name last. -/
def ValuesTogether : Prop :=
  ∀ (headers : HeaderMap) name value, HttpCrate.append headers name value = headers.append name value

theorem ValuesTogether.appendAll_eq (h : ValuesTogether) (headers fields : HeaderMap) :
    appendAll headers fields = Multimap.appendAll headers fields := by
  unfold appendAll Multimap.appendAll
  congr 1
  funext headers field
  exact h headers field.1 field.2

theorem ValuesTogether.ofFields_filter (h : ValuesTogether) (fields : HeaderMap) (keep : HeaderName → Bool) :
    ofFields ((ofFields fields).filter fun f => keep f.1) = (ofFields fields).filter fun f => keep f.1 := by
  unfold ofFields
  rw [h.appendAll_eq [] fields,Multimap.filter_appendAll,h.appendAll_eq]
  exact Multimap.appendAll_idem _

/-- Every request sent for a plain one is made of the client's fields, as its map yields them, without the
standard hop-by-hop fields and the host, and then of what the proxy adds. So each name has the client's values
in the order they came, and then the proxy's; and where a map keeps the values of a name together, the copied
fields keep their order. Fields a `Connection` field names are copied like any other; nothing is said of the two
trailer names. -/
theorem plain_fields_copied {ctx : ProxyContext} {req : Request} {remoteAddr : SocketAddr} {fields : HeaderMap}
    (hplain : isUpgradeRequest req.parts = false) (hfields : req.parts.headers = ofFields fields) :
    Sat answer (proxyRequest ctx req remoteAddr) fun tr _ => ∀ u out, (u,out) ∈ sent tr →
      ∃ copied added, out.headers = ofFields (copied++added) ∧
        requestHeaders (proxyAttempt ctx req.parts remoteAddr req.body.data false u).withoutFields =
          .ok (ofFields added) ∧
        copied.filter (fun f => !isTrailer f.1) =
          req.parts.headers.filter (fun f => !isTrailer f.1 && !staysBehind f.1) ∧
        (∀ name, isTrailer name = false → out.headers.values name =
          (if staysBehind name then [] else fields.values name)++added.values name) ∧
        (ValuesTogether → copied.Sublist out.headers) := by
  refine Sat.mono (proxyRequest_built ctx req remoteAddr) ?_
  intro tr _ hbuilt u out hsent
  have hout := (buildRequest_ok (hbuilt u out hsent)).2.2.1
  simp only [hplain,Bool.false_eq_true,if_false] at hout
  set a := proxyAttempt ctx req.parts remoteAddr req.body.data false u
  have hplainAttempt : a.preserveUpgrade = false := rfl
  rw [requestHeaders_eq hplainAttempt] at hout
  obtain ⟨added,hadded,heq⟩ := ok_of_map hout
  refine ⟨req.parts.headers.filter fun f => isCopied f.1,added,?_,?_,?_,?_,?_⟩
  · exact heq.symm.trans (appendAll_concat [] _ added).symm
  · rw [requestHeaders_eq (a := a.withoutFields) rfl]
    exact congrArg (Except.map ofFields) hadded
  · rw [List.filter_filter]
    apply List.filter_congr
    intro f _
    cases htrailer : isTrailer f.1 with
    | true => rfl
    | false => exact congrArg _ (isCopied_eq htrailer)
  · intro name htrailer
    have hcopied := isCopied_eq htrailer
    rw [← heq,values_appendAll,values_ofFields]
    congr 1
    cases hstays : staysBehind name with
    | true => exact Multimap.values_filter_of_drop _ isCopied (by rw [hcopied,hstays]; rfl)
    | false =>
      have hkept := Multimap.values_filter_of_keep req.parts.headers isCopied (k := name) (by rw [hcopied,hstays]; rfl)
      refine hkept.trans ?_
      rw [hfields,values_ofFields]
      rfl
  · intro htogether
    have hsame := htogether.ofFields_filter fields isCopied
    rw [← hfields] at hsame
    rw [← heq]
    show List.Sublist _ (appendAll (ofFields (req.parts.headers.filter fun f => isCopied f.1)) added)
    rw [hsame,htogether.appendAll_eq]
    exact Multimap.sublist_appendAll _ _

end Copying

def secretRequest : Request :=
  basicRequest "GET" [(CONNECTION,⟨asBytes "close, X-Secret".toList⟩),(⟨"x-secret"⟩,⟨asBytes "1".toList⟩)] []

def secretRun : Response × Trace :=
  run answer (@proxyRequest visibleAscii (basicContext 0) secretRequest SocketAddr.unspecified)
    fun _ => steady [⟨"http://a",1⟩] (.ok (bare 200))

/-- A field named by `Connection` is sent on. -/
theorem nominated_field_sent :
    @isUpgradeRequest visibleAscii secretRequest.parts = false ∧
    "x-secret".toList ∈ nominated secretRequest.parts.headers ∧
    (sent secretRun.2).map (fun s => s.2.headers.values ⟨"x-secret"⟩) = [[⟨asBytes "1".toList⟩]] := by
  decide +kernel

/-- The client sent its own `X-Real-IP` between two fields of another name. -/
def interleavedFields : HeaderMap :=
  [(⟨"accept"⟩,⟨asBytes "text/html".toList⟩),(⟨"x-real-ip"⟩,⟨asBytes "1".toList⟩),(CONNECTION,⟨asBytes "close".toList⟩),
    (⟨"accept"⟩,⟨asBytes "text/plain".toList⟩)]

def interleavedRequest : Request := basicRequest "GET" (@ofFields visibleAscii interleavedFields) []

def interleavedRun : Response × Trace :=
  run answer (@proxyRequest visibleAscii (basicContext 0) interleavedRequest SocketAddr.unspecified)
    fun _ => steady [⟨"http://a",1⟩] (.ok (bare 200))

theorem plain_fields_copied_interleaved :
    (sent interleavedRun.2).map (fun s => s.2.headers.map fun f => f.1.asStr) =
      [["accept","accept","x-real-ip","x-real-ip","x-forwarded-for","x-forwarded-proto","host"]] ∧
    ∀ u out, (u,out) ∈ sent interleavedRun.2 → ∃ copied added, out.headers = @ofFields visibleAscii (copied++added) ∧
      @requestHeaders visibleAscii (proxyAttempt (basicContext 0) interleavedRequest.parts SocketAddr.unspecified
        interleavedRequest.body.data false u).withoutFields = .ok (@ofFields visibleAscii added) ∧
      copied.filter (fun f => !isTrailer f.1) =
        interleavedRequest.parts.headers.filter (fun f => !isTrailer f.1 && !staysBehind f.1) ∧
      (∀ name, isTrailer name = false → out.headers.values name =
        (if staysBehind name then [] else interleavedFields.values name)++added.values name) ∧
      (@ValuesTogether visibleAscii → copied.Sublist out.headers) :=
  ⟨by decide +kernel,(@plain_fields_copied visibleAscii (basicContext 0) interleavedRequest SocketAddr.unspecified
    interleavedFields (by decide +kernel) rfl).run _⟩

end Proxy
end OxiGate
