import OxiGate.Retries

/-! The fields that tell an upstream who the client is. -/
namespace OxiGate
namespace Proxy

open RustText Net Http Lb BodyLimit Interaction

def X_REAL_IP : HeaderName := ⟨"x-real-ip"⟩
def X_FORWARDED_PROTO : HeaderName := ⟨"x-forwarded-proto"⟩

def isIdentity (name : HeaderName) : Bool := name = X_REAL_IP || name = X_FORWARDED_PROTO

def Genuine (a : ProxyAttempt) (headers : HeaderMap) : Prop :=
  headers.values X_REAL_IP = [⟨asBytes a.remoteAddr.ip.display⟩] ∧
    headers.values X_FORWARDED_PROTO = [⟨asBytes (forwardedProto a.clientIsTls)⟩]

def Unclaimed (headers : HeaderMap) : Prop :=
  headers.values X_REAL_IP = [] ∧ headers.values X_FORWARDED_PROTO = []

/-- The same attempt but for the two fields of the client's request. -/
def DifferInIdentity (a a' : ProxyAttempt) : Prop :=
  a' = { a with parts := { a.parts with headers := a'.parts.headers } } ∧
    a'.parts.headers.filter (fun f => !isIdentity f.1) =
      a.parts.headers.filter fun f => !isIdentity f.1

section Identity

variable [HttpCrate]

/-- The configured request headers do not name the two fields. -/
def LeavesIdentity (cfg : HeaderConfig) : Prop :=
  ∀ kv ∈ cfg.requestSet, ∀ n, HttpCrate.headerName kv.1 = .ok n → isIdentity n = false

theorem headerName_realIp : HttpCrate.headerName "X-Real-IP" = .ok X_REAL_IP :=
  HttpCrate.headerName_plain "X-Real-IP" (by decide)

theorem headerName_forwardedFor : HttpCrate.headerName "X-Forwarded-For" = .ok ⟨"x-forwarded-for"⟩ :=
  HttpCrate.headerName_plain "X-Forwarded-For" (by decide)

theorem headerName_forwardedProto : HttpCrate.headerName "X-Forwarded-Proto" = .ok X_FORWARDED_PROTO :=
  HttpCrate.headerName_plain "X-Forwarded-Proto" (by decide)

theorem header_values {b : Builder} {name n : HeaderName} {text : Text} {headers : HeaderMap}
    (h : b.header (.ok name) (HttpCrate.headerValue text) = .ok headers) :
    ∃ before, b = .ok before ∧
      headers.values n = before.values n++if name = n then [⟨asBytes text⟩] else [] := by
  obtain ⟨before,n',v,hb,hn,hv,rfl⟩ := Builder.header_ok h
  cases hn
  exact ⟨before,hb,by rw [HttpCrate.values_append,HttpCrate.headerValue_bytes text v hv]⟩

theorem requestSet_values {n : HeaderName} {sets : List (String × String)} {b : Builder}
    {headers : HeaderMap}
    (h : sets.foldl (fun b kv => b.header (HttpCrate.headerName kv.1)
      (HttpCrate.headerValue kv.2.toList)) b = .ok headers) :
    ∃ before extra, b = .ok before ∧ headers.values n = before.values n++extra ∧
      ((∀ kv ∈ sets, HttpCrate.headerName kv.1 ≠ .ok n) → extra = []) := by
  induction sets generalizing b with
  | nil => exact ⟨headers,[],h,by simp,fun _ => rfl⟩
  | cons kv sets ih =>
    obtain ⟨middle,extra,hmiddle,hvalues,hnone⟩ := ih h
    obtain ⟨before,k,v,hb,hk,-,rfl⟩ := Builder.header_ok hmiddle
    by_cases hname : k = n
    · subst hname
      refine ⟨before,v::extra,hb,by simp [hvalues,HttpCrate.values_append],?_⟩
      intro hnames
      exact absurd hk (hnames kv (by simp))
    · refine ⟨before,extra,hb,by rw [hvalues,values_append_ne _ v hname],?_⟩
      intro hnames
      exact hnone fun kv' hkv' => hnames kv' (by simp [hkv'])

theorem host_values {n : HeaderName} (hn : HOST ≠ n) {host : Option Text} {b : Builder}
    {headers : HeaderMap}
    (h : (match host with
      | some host =>
        match HttpCrate.headerValue host with
        | .ok value => b.header (.ok HOST) (.ok value)
        | .error _ => b
      | none => b) = .ok headers) :
    ∃ before, b = .ok before ∧ headers.values n = before.values n := by
  split at h
  · split at h
    · obtain ⟨before,k,v,hb,hk,-,rfl⟩ := Builder.header_ok h
      cases hk
      exact ⟨before,hb,values_append_ne _ v hn⟩
    · exact ⟨headers,h,rfl⟩
  · exact ⟨headers,h,rfl⟩

def ownValue (a : ProxyAttempt) (n : HeaderName) : HeaderValue :=
  if n = X_REAL_IP then ⟨asBytes a.remoteAddr.ip.display⟩
  else ⟨asBytes (forwardedProto a.clientIsTls)⟩

/-- The values of the two fields are the client's, then the proxy's, then any configured. -/
theorem requestHeaders_values {a : ProxyAttempt} {headers : HeaderMap} {n : HeaderName}
    (hn : isIdentity n = true) (h : requestHeaders a = .ok headers) :
    ∃ extra, headers.values n = a.parts.headers.values n++ownValue a n::extra ∧
      (LeavesIdentity a.headersCfg → extra = []) := by
  have hcases : n = X_REAL_IP ∨ n = X_FORWARDED_PROTO := by simpa [isIdentity] using hn
  have hhost : HOST ≠ n := by rcases hcases with rfl | rfl <;> decide
  have hfor : HeaderName.mk "x-forwarded-for" ≠ n := by rcases hcases with rfl | rfl <;> decide
  have hpass : isStopped a.preserveUpgrade n = false := by
    cases a.preserveUpgrade <;> rcases hcases with rfl | rfl <;> decide
  unfold requestHeaders at h
  rw [headerName_realIp,headerName_forwardedFor,headerName_forwardedProto] at h
  obtain ⟨b₄,h₄,hv₄⟩ := host_values hhost h
  obtain ⟨b₃,extra,h₃,hv₃,hextra⟩ := requestSet_values (n := n) h₄
  obtain ⟨b₂,h₂,hv₂⟩ := header_values (n := n) h₃
  obtain ⟨b₁,h₁,hv₁⟩ := header_values (n := n) h₂
  obtain ⟨b₀,h₀,hv₀⟩ := header_values (n := n) h₁
  rw [copyFields_ok] at h₀
  cases h₀
  have hcopied := Multimap.values_filter_of_keep a.parts.headers
    (fun name => !(decide (name = HOST) || isStopped a.preserveUpgrade name)) (k := n)
    (by simp [hpass,hhost.symm])
  refine ⟨extra,?_,?_⟩
  · rw [hv₄,hv₃,hv₂,hv₁,hv₀,values_appendAll,hcopied,if_neg hfor]
    rcases hcases with rfl | rfl
    · rw [if_pos rfl,if_neg (by decide)]
      simp [ownValue]
    · rw [if_pos rfl,if_neg (by decide)]
      have hne : X_FORWARDED_PROTO ≠ X_REAL_IP := by decide
      simp [ownValue,hne]
  · intro hset
    apply hextra
    intro kv hkv hname
    have hleaves := hset kv hkv n hname
    rw [hn] at hleaves
    cases hleaves

theorem genuine_iff {a : ProxyAttempt} {headers : HeaderMap} (hset : LeavesIdentity a.headersCfg)
    (h : requestHeaders a = .ok headers) : Genuine a headers ↔ Unclaimed a.parts.headers := by
  obtain ⟨extra,hip,hextra⟩ := requestHeaders_values (n := X_REAL_IP) (by decide) h
  obtain ⟨extra',hproto,hextra'⟩ := requestHeaders_values (n := X_FORWARDED_PROTO) (by decide) h
  have hne : X_FORWARDED_PROTO ≠ X_REAL_IP := by decide
  unfold Genuine Unclaimed
  rw [hip,hproto,hextra hset,hextra' hset]
  simp [ownValue,hne]

/-- What an upstream is told about the client is the proxy's alone, and does not depend on
the client's fields, exactly when the client sent none. -/
theorem identity_genuine_iff (a a' : ProxyAttempt) (out out' : OutRequest)
    (hdiffer : DifferInIdentity a a') (hset : LeavesIdentity a.headersCfg)
    (hout : buildRequest a = .ok out) (hout' : buildRequest a' = .ok out') :
    (Genuine a out.headers ∧ Genuine a' out'.headers ∧
      out'.headers.values X_REAL_IP = out.headers.values X_REAL_IP ∧
      out'.headers.values X_FORWARDED_PROTO = out.headers.values X_FORWARDED_PROTO) ↔
    Unclaimed a.parts.headers ∧ Unclaimed a'.parts.headers := by
  have hcfg : a'.headersCfg = a.headersCfg := by rw [hdiffer.1]
  have haddr : a'.remoteAddr = a.remoteAddr := by rw [hdiffer.1]
  have htls : a'.clientIsTls = a.clientIsTls := by rw [hdiffer.1]
  have hgenuine := genuine_iff hset (buildRequest_ok hout).2.2.1
  have hgenuine' := genuine_iff (hcfg ▸ hset) (buildRequest_ok hout').2.2.1
  constructor
  · rintro ⟨h,h',-,-⟩
    exact ⟨hgenuine.mp h,hgenuine'.mp h'⟩
  · rintro ⟨h,h'⟩
    have hown := hgenuine.mpr h
    have hown' := hgenuine'.mpr h'
    refine ⟨hown,hown',?_,?_⟩
    · rw [hown'.1,hown.1,haddr]
    · rw [hown'.2,hown.2,htls]

end Identity

def sampleAttempt (fields : HeaderMap) : ProxyAttempt :=
  proxyAttempt (basicContext 1) (basicRequest "GET" fields []).parts ⟨.v4 (ipv4 192 0 2 7),4000⟩ []
    false ⟨0,0,"http://a"⟩

/-- A client's own `X-Real-IP` reaches the upstream, ahead of the proxy's. -/
theorem realIp_forged :
    (@buildRequest visibleAscii (sampleAttempt [(X_REAL_IP,⟨asBytes "10.0.0.1".toList⟩)])).map
        (·.headers.values X_REAL_IP) =
      .ok [⟨asBytes "10.0.0.1".toList⟩,⟨asBytes "192.0.2.7".toList⟩] := by
  decide +kernel

theorem identity_genuine_iff_forged :
    let a := sampleAttempt []
    let a' := sampleAttempt [(X_REAL_IP,⟨asBytes "10.0.0.1".toList⟩)]
    ∃ out out', @buildRequest visibleAscii a = .ok out ∧ @buildRequest visibleAscii a' = .ok out' ∧
      ((Genuine a out.headers ∧ Genuine a' out'.headers ∧
        out'.headers.values X_REAL_IP = out.headers.values X_REAL_IP ∧
        out'.headers.values X_FORWARDED_PROTO = out.headers.values X_FORWARDED_PROTO) ↔
      Unclaimed a.parts.headers ∧ Unclaimed a'.parts.headers) := by
  intro a a'
  have hok : ∀ {b : ProxyAttempt}, (@buildRequest visibleAscii b).isOk = true →
      ∃ out, @buildRequest visibleAscii b = .ok out := by
    intro b h
    cases hb : @buildRequest visibleAscii b with
    | error e =>
      rw [hb] at h
      cases h
    | ok out => exact ⟨out,rfl⟩
  obtain ⟨out,hout⟩ : ∃ out, @buildRequest visibleAscii a = .ok out := hok (by decide +kernel)
  obtain ⟨out',hout'⟩ : ∃ out', @buildRequest visibleAscii a' = .ok out' := hok (by decide +kernel)
  have hset : @LeavesIdentity visibleAscii a.headersCfg := by
    intro kv hkv
    cases hkv
  exact ⟨out,out',hout,hout',
    @identity_genuine_iff visibleAscii a a' out out' ⟨rfl,by decide⟩ hset hout hout'⟩

end Proxy
end OxiGate
