/-
The warm service.

One request goes to each edge for each URL, and all of them at once.  Whichever is answered
with 200 or 304 puts its URL on the list of its edge.  What the requests come to, and in
which order, is given; the reports are what the service makes of it.
-/
import Cdn.Python
import Cdn.Lib.Dict

namespace Cdn

namespace WarmService

/-- A request that has come back: with a status, or with an exception. -/
structure Completed where
  edgeUrl : String
  url : String
  status : Option Int
deriving DecidableEq

/-- The requests of `warm`. -/
def requests (edgeUrls urls : List String) : List (String × String) :=
  edgeUrls.flatMap fun edgeUrl => urls.map fun url => (edgeUrl, url)

/-- The rest of `_warm_single`, once its request has come back.  An edge that has no list
is an exception that is caught. -/
def warmSingle (results : Dict String (List String)) (c : Completed) : Dict String (List String) :=
  if c.status = some 200 ∨ c.status = some 304 then
    match results.get? c.edgeUrl with
    | some warmed => results.set c.edgeUrl (warmed ++ [c.url])
    | none => results
  else results

/-- `warm`. -/
def warm (edgeUrls : List String) (completed : List Completed) : Dict String (List String) :=
  completed.foldl warmSingle (Dict.ofList (edgeUrls.map fun edgeUrl => (edgeUrl, [])))

/-! ### What is reported -/

theorem getD_warmSingle {results : Dict String (List String)} {edgeUrl : String}
    (h : results.contains edgeUrl = true) (c : Completed) :
    (warmSingle results c).contains edgeUrl = true ∧ ∀ url,
      url ∈ (warmSingle results c).getD edgeUrl [] ↔ url ∈ results.getD edgeUrl [] ∨
        c.edgeUrl = edgeUrl ∧ c.url = url ∧ (c.status = some 200 ∨ c.status = some 304) := by
  unfold warmSingle
  split
  · rename_i hstatus
    split
    · rename_i warmed hwarmed
      refine ⟨Dict.contains_set_of _ _ _ h, fun url => ?_⟩
      by_cases hedge : c.edgeUrl = edgeUrl
      · subst hedge
        simp [Dict.getD, hwarmed, hstatus, eq_comm]
      · have hne : ¬ (edgeUrl = c.edgeUrl) := fun hc => hedge hc.symm
        simp [Dict.getD, hedge, hne]
    · rename_i hnone
      refine ⟨h, fun url => ?_⟩
      have hedge : c.edgeUrl ≠ edgeUrl := by
        rintro rfl
        rw [Dict.contains, hnone] at h
        cases h
      simp [hedge]
  · rename_i hstatus
    exact ⟨h, fun url => by simp [hstatus]⟩

/-- **A URL is reported exactly if one of its requests was answered with 200 or 304.** -/
theorem mem_warm {edgeUrls : List String} {edgeUrl : String} (hedge : edgeUrl ∈ edgeUrls)
    (completed : List Completed) (url : String) :
    url ∈ (warm edgeUrls completed).getD edgeUrl [] ↔
      ∃ c ∈ completed, c.edgeUrl = edgeUrl ∧ c.url = url ∧
        (c.status = some 200 ∨ c.status = some 304) := by
  have hfold : ∀ (completed : List Completed) (results : Dict String (List String)),
      results.contains edgeUrl = true →
      (url ∈ (completed.foldl warmSingle results).getD edgeUrl [] ↔
        url ∈ results.getD edgeUrl [] ∨ ∃ c ∈ completed, c.edgeUrl = edgeUrl ∧ c.url = url ∧
          (c.status = some 200 ∨ c.status = some 304)) := by
    intro completed
    induction completed with
    | nil => intro results _; simp
    | cons c rest ih =>
        intro results h
        obtain ⟨hcontains, hmem⟩ := getD_warmSingle h c
        rw [List.foldl_cons, ih _ hcontains, hmem]
        simp [or_assoc]
  have hstart : (Dict.ofList (edgeUrls.map fun edgeUrl => (edgeUrl, ([] : List String)))).get?
      edgeUrl = some [] := by
    rw [Dict.get?_ofList_map (fun edgeUrl : String => edgeUrl) (fun _ => ([] : List String))]
    simp [hedge]
  rw [warm, hfold completed _ (by rw [Dict.contains, hstart]; rfl), Dict.getD, hstart]
  simp

end WarmService

end Cdn
