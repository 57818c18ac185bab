/-
What warming is good for.

A warm request is a request like any other: what it brings is filed under its path and the
Accept-Encoding of the warm service's own client.  A visitor finds it exactly if his header
comes to the same vary part of the key; that the body is stored without any coding, and
would do for every visitor, is of no account.
-/
import Cdn.Application.WarmService
import Cdn.Proofs.Reuse

namespace Cdn

variable {β : Type} {S : Setup β}

namespace WarmService

/-- In some run of the service the request for `url` at the edge came back with this
status, and the URL is reported as warmed there. -/
def Reports (edgeUrl url : String) (statusCode : Int) : Prop :=
  ∃ edgeUrls urls completed, (completed.map fun c => (c.edgeUrl, c.url)).Perm (requests edgeUrls urls) ∧
    ⟨edgeUrl, url, some statusCode⟩ ∈ completed ∧ url ∈ (warm edgeUrls completed).getD edgeUrl []

/-- A request that is answered with 200 is reported. -/
theorem reports_ok (edgeUrl url : String) : Reports edgeUrl url 200 := by
  refine ⟨[edgeUrl], [url], [⟨edgeUrl, url, some 200⟩], List.Perm.refl _, List.mem_cons_self, ?_⟩
  exact (mem_warm List.mem_cons_self _ _).mpr
    ⟨_, List.mem_cons_self, rfl, rfl, Or.inl rfl⟩

end WarmService

namespace Edge

/-- Once the warm service, with the headers `warmHeaders`, has had `r` of an edge for a path
and reports the URL, a visitor with the headers `headers` is answered with it, as long as it
is kept. -/
def Prepopulates (S : Setup β) (path : String) (warmHeaders headers : Headers)
    (r : OriginResponse β) : Prop :=
  ∀ edgeUrl response e s, Kept S path (some warmHeaders) r response e s →
    WarmService.Reports edgeUrl ("/files/" ++ path) response.statusCode →
    Hit S s path (some headers) e

/-- **Warming serves a visitor** exactly if his Accept-Encoding comes to the same vary part
of the key as the warm client's; where no two texts collide, if the two are the same text,
or both are missing. -/
theorem prepopulates_iff (path : String) (warmHeaders headers : Headers) (r : OriginResponse β)
    (hreusable : Reusable S r) (hvary : r.headers.get? "vary" = none) :
    (Prepopulates S path warmHeaders headers r ↔
        varyPart S (some warmHeaders) = varyPart S (some headers)) ∧
      (Function.Injective S.digest.hash →
        (varyPart S (some warmHeaders) = varyPart S (some headers) ↔
          (normalized warmHeaders).get? "accept-encoding" =
            (normalized headers).get? "accept-encoding")) := by
  refine ⟨?_, fun hinj => varyPart_eq_iff hinj⟩
  have hfields : varyFields r.headers = none := by simp [varyFields, Dict.getD, hvary]
  have hfound := foundBy_iff hreusable path (some warmHeaders) (some headers)
  rw [hfields] at hfound
  refine Iff.trans ⟨fun h response e s hkept => ?_, fun h edgeUrl response e s hkept _ => ?_⟩ hfound
  · refine h "" response e s hkept ?_
    rw [hkept.statusCode hreusable]
    exact WarmService.reports_ok _ _
  · exact h response e s hkept

/-- The headers of an HTTP client that takes two codings. -/
def clientHeaders : Headers := Dict.ofList [("accept", "*/*"), ("accept-encoding", "gzip, deflate")]

/-- A plain response, to be kept for a minute. -/
def plainResponse : OriginResponse Nat where
  content := 1
  statusCode := 200
  headers := Dict.ofList [("cache-control", "max-age=60")]

theorem reusable_plainResponse : Reusable sampleSetup plainResponse where
  ok := rfl
  stored := ⟨{ maxAge := some 60 }, 60, 0, by decide +kernel, rfl, by decide +kernel, by norm_num,
    rfl⟩

/-- A visitor who takes the same two. -/
def visitorHeaders : Headers :=
  Dict.ofList [("User-Agent", "a browser"), ("Accept-Encoding", "gzip, deflate")]

theorem prepopulates_iff_client :
    (Prepopulates sampleSetup "a" clientHeaders visitorHeaders plainResponse ↔
        varyPart sampleSetup (some clientHeaders) = varyPart sampleSetup (some visitorHeaders)) ∧
      (Function.Injective sampleSetup.digest.hash →
        (varyPart sampleSetup (some clientHeaders) = varyPart sampleSetup (some visitorHeaders) ↔
          (normalized clientHeaders).get? "accept-encoding" =
            (normalized visitorHeaders).get? "accept-encoding")) :=
  prepopulates_iff "a" clientHeaders visitorHeaders plainResponse reusable_plainResponse rfl

/-- The same two codings, in the other order, miss what was warmed. -/
theorem notPrepopulated_order : ¬ ∀ (path : String) (warmHeaders headers : Headers)
    (r : OriginResponse Nat), Reusable sampleSetup r → r.headers.get? "vary" = none →
    Prepopulates sampleSetup path warmHeaders headers r := by
  intro h
  have hfound : FoundBy sampleSetup "a" (some clientHeaders)
      (some (Dict.ofList [("accept-encoding", "deflate, gzip")])) plainResponse := by
    intro response e s hkept
    refine h "a" clientHeaders _ plainResponse reusable_plainResponse rfl "" response e s hkept ?_
    rw [hkept.statusCode reusable_plainResponse]
    exact WarmService.reports_ok _ _
  rw [foundBy_iff reusable_plainResponse] at hfound
  have hfields : filedPart sampleSetup (some clientHeaders) (varyFields plainResponse.headers) =
      varyPart sampleSetup (some clientHeaders) := rfl
  have hsame := (varyPart_eq_iff (S := sampleSetup) sampleHash_injective).mp
    (hfields.symm.trans hfound)
  revert hsame
  decide +kernel

end Edge

end Cdn
