import OxiGate.Routing
import Mathlib.Order.CompletePartialOrder

/-! Routes whose paths are among another's. The table is sorted by the length of the prefixes as
written, although slashes at their ends do not count in a match. -/
namespace OxiGate
namespace Routing

open RustText Lb RateLimit Http

def Matches (pathPrefix : String) : Set String := {path | pathMatches path pathPrefix = true}

theorem slash_isPrefix (rest : Text) : ['/'] <+: trimEndMatches '/' ('/'::rest)++['/'] := by
  obtain ⟨more,hmore⟩ := trimEndMatches_isPrefix '/' ('/'::rest)
  cases htrim : trimEndMatches '/' ('/'::rest) with
  | nil => exact ⟨[],rfl⟩
  | cons d ds =>
    rw [htrim] at hmore
    cases hmore
    exact ⟨ds++['/'],rfl⟩

theorem isPrefix_trimEndMatches {dir text : Text} (hdir : dir.getLast? ≠ some '/') (h : dir++['/'] <+: text) :
    dir++['/'] <+: trimEndMatches '/' text++['/'] := by
  obtain ⟨rest,rfl⟩ := h
  by_cases hnil : dir = []
  · subst hnil
    exact slash_isPrefix rest
  · have htrim : trimEndMatches '/' (dir++['/']++rest) = dir++trimEndMatches '/' ('/'::rest) := by
      rw [List.append_assoc]
      refine trimEndMatches_append ?_ hnil
      rintro d hd rfl
      exact hdir hd
    rw [htrim,List.append_assoc]
    exact List.prefix_append_right_inj dir |>.mpr (slash_isPrefix rest)

/-- What matches a prefix of a route's own prefix matches all its paths. -/
theorem pathMatches_trans {path middle p : String} (hroot : middle ≠ "/")
    (hpath : pathMatches path middle = true) (hmiddle : pathMatches middle p = true) :
    pathMatches path p = true := by
  rw [pathMatches_iff] at hpath hmiddle ⊢
  rcases hmiddle with rfl | rfl | hdir
  · exact Or.inl rfl
  · exact hpath
  · rcases hpath with rfl | rfl | hunder
    · exact absurd rfl hroot
    · exact Or.inr (Or.inr hdir)
    · right
      right
      exact (isPrefix_trimEndMatches (getLast?_trimEndMatches '/' _) hdir).trans hunder

theorem mem_matches_self (p : String) : p ∈ Matches p := pathMatches_iff.mpr (Or.inr (Or.inl rfl))

theorem matches_subset_iff {p q : String} (hroot : p ≠ "/") : Matches p ⊆ Matches q ↔ pathMatches p q = true := by
  constructor
  · intro h
    exact h (mem_matches_self p)
  · intro h path hpath
    exact pathMatches_trans hroot hpath h

section Tables

variable {F : Type}

def Ahead (config : Config F) (k j : ℕ) : Prop :=
  ∃ c b, config.routes[k]? = some c ∧ config.routes[j]? = some b ∧
    (byteLen b.pathPrefix.toList < byteLen c.pathPrefix.toList ∨
      byteLen b.pathPrefix.toList = byteLen c.pathPrefix.toList ∧ k < j)

theorem BestRoute.ahead {config : Config F} {path : String} {k j : ℕ} {b : RouteConfig}
    (h : BestRoute config path k) (hj : config.routes[j]? = some b) (hmatch : pathMatches path b.pathPrefix = true)
    (hne : k ≠ j) : Ahead config k j := by
  obtain ⟨c,hk,-,-,hbest⟩ := h
  obtain ⟨hle,hfirst⟩ := hbest j b hj hmatch
  refine ⟨c,b,hk,hj,?_⟩
  rcases Nat.lt_or_eq_of_le hle with hlt | heq
  · exact Or.inl hlt
  · exact Or.inr ⟨heq,Nat.lt_of_le_of_ne (hfirst heq) hne⟩

theorem BestRoute.not_ahead {config : Config F} {path : String} {k j : ℕ} {c : RouteConfig}
    (h : BestRoute config path j) (hk : config.routes[k]? = some c) (hmatch : pathMatches path c.pathPrefix = true) :
    ¬Ahead config k j := by
  rintro ⟨c',b,hk',hj,hahead⟩
  obtain ⟨b',hj',-,-,hbest⟩ := h
  rw [hk] at hk'
  rw [hj] at hj'
  cases hk'
  cases hj'
  obtain ⟨hle,hfirst⟩ := hbest k c hk hmatch
  rcases hahead with hlt | ⟨heq,hlt⟩
  · omega
  · have := hfirst heq.symm
    omega

variable [F64 F] [LE F] [DecidableLE F] [HttpCrate]

/-- A less specific route never wins over a more specific one exactly if, for every two such routes, the
search comes to some route of the more specific prefix itself before the less specific route. -/
theorem specific_wins_iff {fileExists : String → Bool} {config : Config F}
    (hvalid : Validator.validate fileExists config = .ok ()) :
    (∀ path a b j, a ∈ config.routes → config.routes[j]? = some b → path ∈ Matches a.pathPrefix →
      path ∈ Matches b.pathPrefix → Matches a.pathPrefix ⊂ Matches b.pathPrefix →
      (Router.fromConfig config).resolve path ≠ some j) ↔
    ∀ a b j, a ∈ config.routes → config.routes[j]? = some b → Matches a.pathPrefix ⊂ Matches b.pathPrefix →
      ∃ k c, config.routes[k]? = some c ∧ pathMatches a.pathPrefix c.pathPrefix = true ∧ Ahead config k j := by
  have hnonempty : ∀ r ∈ config.routes, r.pathPrefix ≠ "" :=
    fun r hr => ((Validator.validate_eq_ok.mp hvalid).routes r hr).pathPrefix
  constructor
  · intro h a b j ha hb hsub
    have hself : pathMatches a.pathPrefix a.pathPrefix = true := mem_matches_self _
    have hother : pathMatches a.pathPrefix b.pathPrefix = true := hsub.subset hself
    obtain ⟨k,hresolve,hbest⟩ := exists_bestRoute hnonempty ⟨a,ha,hself⟩
    have hne : k ≠ j := by
      rintro rfl
      exact h _ a b k ha hb hself hother hsub hresolve
    obtain ⟨c,hk,hmatch,-⟩ := id hbest
    exact ⟨k,c,hk,hmatch,hbest.ahead hb hother hne⟩
  · intro h path a b j ha hb hpath hpathb hsub hresolve
    obtain ⟨k,c,hk,hmatch,hahead⟩ := h a b j ha hb hsub
    -- the root matches every path, so it is no proper part of anything
    have hroot : a.pathPrefix ≠ "/" := by
      intro hroot
      apply hsub.not_subset
      intro p _
      exact pathMatches_iff.mpr (Or.inl hroot)
    obtain ⟨j',hresolve',hbest⟩ := exists_bestRoute hnonempty ⟨a,ha,hpath⟩
    rw [hresolve] at hresolve'
    cases hresolve'
    exact hbest.not_ahead hk (pathMatches_trans hroot hpath hmatch) hahead

end Tables

def tableOf (prefixes : List String) : Config ℚ :=
  .ofPools [] (prefixes.map fun p => ⟨p,[⟨"http://a",1⟩],none⟩)

/-- A prefix with slashes at its end is longer than one under it, and is tried first. -/
theorem general_route_wins :
    let config := tableOf ["/api////","/api/v1"]
    @Validator.validate ℚ _ _ _ visibleAscii (fun _ => false) config = .ok () ∧
      "/api/v1" ∈ Matches "/api/v1" ∧ "/api/v1" ∈ Matches "/api////" ∧
      Matches "/api/v1" ⊂ Matches "/api////" ∧ (Router.fromConfig config).resolve "/api/v1" = some 0 := by
  have hsub : Matches "/api/v1" ⊂ Matches "/api////" := by
    have hunder : pathMatches "/api/v1" "/api////" = true := by decide +kernel
    have hother : pathMatches "/api/x" "/api////" = true := by decide +kernel
    have hnot : pathMatches "/api/x" "/api/v1" = false := by decide +kernel
    refine ⟨(matches_subset_iff (by decide)).mpr hunder,fun hback => ?_⟩
    have hboth : pathMatches "/api/x" "/api/v1" = true := hback hother
    rw [hnot] at hboth
    cases hboth
  exact ⟨by decide +kernel,mem_matches_self _,hsub.subset (mem_matches_self _),hsub,by decide +kernel⟩

theorem specific_wins_iff_nested :
    let config := tableOf ["/api","/api/v1"]
    @Validator.validate ℚ _ _ _ visibleAscii (fun _ => false) config = .ok () ∧
    ∀ path a b j, a ∈ config.routes → config.routes[j]? = some b → path ∈ Matches a.pathPrefix →
      path ∈ Matches b.pathPrefix → Matches a.pathPrefix ⊂ Matches b.pathPrefix →
      (Router.fromConfig config).resolve path ≠ some j := by
  intro config
  have hvalid : @Validator.validate ℚ _ _ _ visibleAscii (fun _ => false) config = .ok () := by decide +kernel
  refine ⟨hvalid,(@specific_wins_iff ℚ _ _ _ visibleAscii _ _ hvalid).mpr ?_⟩
  intro a b j ha hb hsub
  have hunder : pathMatches "/api" "/api/v1" = false := by decide +kernel
  have hself : pathMatches "/api/v1" "/api/v1" = true := by decide +kernel
  have hroutes : config.routes = [⟨"/api",[⟨"http://a",1⟩],none⟩,⟨"/api/v1",[⟨"http://a",1⟩],none⟩] := rfl
  rw [hroutes] at ha hb
  have hlast : config.routes[1]? = some ⟨"/api/v1",[⟨"http://a",1⟩],none⟩ := rfl
  rcases j with _ | _ | j
  · cases hb
    simp only [List.mem_cons,List.not_mem_nil,or_false] at ha
    rcases ha with rfl | rfl
    · exact absurd hsub (ssubset_irrefl _)
    · exact ⟨1,_,hlast,hself,_,_,hlast,rfl,Or.inl (by decide)⟩
  · cases hb
    simp only [List.mem_cons,List.not_mem_nil,or_false] at ha
    rcases ha with rfl | rfl
    · have hmem : pathMatches "/api" "/api/v1" = true := hsub.subset (mem_matches_self "/api")
      rw [hunder] at hmem
      cases hmem
    · exact absurd hsub (ssubset_irrefl _)
  · cases hb

end Routing
end OxiGate
