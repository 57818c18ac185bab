/-
Revalidation against the origin.

The origin says that nothing has changed where the tag it is sent is the digest of the file.
It is sent the tag of the entry the call has read, and the tag of an entry is the digest of
its own content: that is what has to hold of every entry, of every call that has read one
and of every answer on its way (`Tagged`).  So where the digest tells files apart, an entry
is called good exactly while the file is what the entry holds.
-/
import Cdn.Deployment
import Cdn.Infrastructure.Compression
import Cdn.Proofs.Provenance

namespace Cdn

open Paths

namespace Deployment

variable {D : Setup} {files : Files} {call : Call Bytes}

/-! ### What the origin responds -/

/-- The responses of the origin to an edge, which asks for no range. -/
inductive Responds (D : Setup) (files : Files) (call : Call Bytes) : HttpResponse → Prop where
  | notModified {content : Bytes} {e : CacheEntry Bytes} {tag : String}
      (hfile : fileAt D files call.path = some content) (hcached : call.cached = some e)
      (htag : e.etag = some tag) (hmatch : stripQuotes tag = D.origin.md5 content) :
      Responds D files call
        { statusCode := 304
          headers := Dict.ofList [("ETag", quoted (D.origin.md5 content))] }
  | full {content : Bytes} {contentType : String}
      (hfile : fileAt D files call.path = some content) :
      Responds D files call
        { content := content
          statusCode := 200
          mediaType := some contentType
          headers := Dict.ofList
            [("ETag", quoted (D.origin.md5 content)),
              ("Content-Length", toString content.length),
              ("Accept-Ranges", "bytes")] }
  | refused {response : HttpResponse} (hfile : fileAt D files call.path = none)
      (hheaders : response.headers = ∅)
      (hstatus : response.statusCode ∈ [(403 : Int), 404, 500]) :
      Responds D files call response

/-- The tag of a conditional request is the one of the entry that was read. -/
theorem tag_of_fetchHeaders {cached : Option (CacheEntry Bytes)} {tag : String}
    (h : (fetchHeaders cached).get? "If-None-Match" = some tag) :
    ∃ e, cached = some e ∧ e.etag = some tag := by
  unfold fetchHeaders at h
  split at h
  · rename_i tag' htag
    split at h
    · obtain ⟨e, hcached, he⟩ := Option.bind_eq_some_iff.mp htag
      have hsame : some tag' = some tag := h
      exact ⟨e, hcached, he.trans hsame⟩
    · cases h
  · cases h

theorem responds (D : Setup) (files : Files) (call : Call Bytes) :
    Responds D files call (respond D files call) := by
  unfold respond serveFile
  cases hpath : resolvePath D.basePath (OriginClient.requestPath call.path) with
  | error x => exact .refused (by rw [fileAt, hpath]) rfl (by simp [serverError])
  | ok filePath =>
      dsimp only
      by_cases htext : D.basePath.text <+: filePath.text
      · have hfileAt : fileAt D files call.path = files filePath := by
          rw [fileAt, hpath]
          exact if_pos htext
        rw [if_neg (not_not.mpr htext)]
        cases hfile : files filePath with
        | none => exact .refused (hfileAt.trans hfile) rfl (by simp)
        | some content =>
            dsimp only
            unfold serveContent
            dsimp only
            by_cases hmatch : ∃ tag ∈ (fetchHeaders call.cached).get? "If-None-Match",
                tag ≠ "" ∧ stripQuotes tag = D.origin.md5 content
            · rw [if_pos hmatch]
              obtain ⟨tag, htag, -, hstrip⟩ := hmatch
              obtain ⟨e, hcached, he⟩ := tag_of_fetchHeaders htag
              exact .notModified (hfileAt.trans hfile) hcached he hstrip
            · rw [if_neg hmatch]
              exact .full (hfileAt.trans hfile)
      · have hfileAt : fileAt D files call.path = none := by
          rw [fileAt, hpath]
          exact if_neg htext
        rw [if_pos htext]
        exact .refused hfileAt rfl (by simp [forbidden])

/-! ### What the edge receives of it -/

/-- An answer as the edge has it from the origin. -/
inductive Heard (D : Setup) (files : Files) (call : Call Bytes) : OriginResponse Bytes → Prop where
  | notModified {r : OriginResponse Bytes} {content : Bytes} {e : CacheEntry Bytes} {tag : String}
      (hfile : fileAt D files call.path = some content) (hcached : call.cached = some e)
      (htag : e.etag = some tag) (hmatch : stripQuotes tag = D.origin.md5 content)
      (hstatus : r.statusCode = 304) : Heard D files call r
  | full {r : OriginResponse Bytes} {content : Bytes}
      (hfile : fileAt D files call.path = some content) (hcontent : r.content = content)
      (hstatus : r.statusCode = 200) (htag : r.etag = some (quoted (D.origin.md5 content))) :
      Heard D files call r
  | refused {r : OriginResponse Bytes} (hfile : fileAt D files call.path = none)
      (hstatus : r.statusCode ∈ [(403 : Int), 404, 500]) (htag : r.etag = none) :
      Heard D files call r

/-- The names the origin gives to its headers, in lower case. -/
theorem lowerName_origin : Http.lowerName "ETag" = "etag" ∧
    Http.lowerName "Content-Length" = "content-length" ∧
    Http.lowerName "Accept-Ranges" = "accept-ranges" := by decide +kernel

/-- The origin names a tag, a length and that it knows ranges; nothing else. -/
theorem given_responds {response : HttpResponse} (h : Responds D files call response)
    {name : String} (hname : name ∉ ["etag", "content-length", "accept-ranges"]) :
    response.given name = [] := by
  simp only [List.mem_cons, List.not_mem_nil, or_false, not_or] at hname
  obtain ⟨htag, hlength, hranges⟩ := hname
  refine Http.values_eq_nil fun line hline => ?_
  cases h with
  | notModified =>
      obtain rfl := List.mem_singleton.mp hline
      rw [lowerName_origin.1]
      exact Ne.symm htag
  | full =>
      have hmem : line.1 ∈ ["ETag", "Content-Length", "Accept-Ranges"] :=
        List.mem_map_of_mem (f := Prod.fst) hline
      simp only [List.mem_cons, List.not_mem_nil, or_false] at hmem
      rcases hmem with h | h | h
      · rw [h, lowerName_origin.1]
        exact Ne.symm htag
      · rw [h, lowerName_origin.2.1]
        exact Ne.symm hlength
      · rw [h, lowerName_origin.2.2]
        exact Ne.symm hranges
  | refused hfile hheaders =>
      rw [hheaders] at hline
      cases hline

theorem given_full (content : Bytes) (tag : String) (mediaType : Option String) :
    HttpResponse.given
      { content := content
        statusCode := 200
        mediaType := mediaType
        headers := Dict.ofList
          [("ETag", tag), ("Content-Length", toString content.length),
            ("Accept-Ranges", "bytes")] } "etag" = [tag] := by
  show Http.values [("ETag", tag), ("Content-Length", toString content.length),
    ("Accept-Ranges", "bytes")] "etag" = [tag]
  simp [Http.values, lowerName_origin.1, lowerName_origin.2.1, lowerName_origin.2.2]

/-- The edge hears what the origin responds, and no word about caching. -/
theorem heard (D : Setup) (files : Files) (call : Call Bytes) :
    ∃ r, attempt D files call = .response r ∧
      Heard D files call (OriginClient.originResponse r) ∧ directivesOf r.headers = .ok {} := by
  have hresponds := responds D files call
  generalize hresponse : respond D files call = response at hresponds
  have hplain : ∀ name ∉ ["etag", "content-length", "accept-ranges"], response.given name = [] :=
    fun name => given_responds hresponds
  have hreceive := D.framework.receive_send response D.codec (hplain _ (by decide))
  refine ⟨_, by rw [attempt, hresponse, hreceive], ?_, ?_⟩
  · have htag : (D.framework.send response).headers.get? "etag" = Http.joined (response.given "etag") :=
      D.framework.get?_headers_send response (by decide) (by decide)
    cases hresponds with
    | notModified hfile hcached he hmatch => exact .notModified hfile hcached he hmatch rfl
    | full hfile =>
        refine .full hfile rfl rfl ?_
        rw [given_full, Http.joined_singleton] at htag
        exact htag
    | refused hfile hheaders hstatus =>
        refine .refused hfile hstatus ?_
        rw [HttpResponse.given, hheaders] at htag
        exact htag
  · have hcontrol : (D.framework.send response).headers.get? "cache-control" = none := by
      rw [D.framework.get?_headers_send response (by decide) (by decide), hplain _ (by decide)]
      rfl
    simp [directivesOf, Dict.getD, hcontrol]

/-! ### Tags -/

/-- What every answer keeps to: with status 200 its tag is the digest of its content, and
with any other it has none. -/
def Tagged (md5 : Bytes → String) (r : OriginResponse Bytes) : Prop :=
  r.statusCode = 200 ∧ r.etag = some (quoted (md5 r.content)) ∨
    r.statusCode ≠ 200 ∧ r.etag = none

theorem stripQuotes_quoted {text : String} (h : '"' ∉ text.toList) :
    stripQuotes (quoted text) = text := by
  have hlist : (quoted text).toList = '"' :: (text.toList ++ ['"']) := by
    simp [quoted]
  rw [stripQuotes, hlist, List.dropWhile_cons_of_pos (by simp)]
  cases htext : text.toList with
  | nil =>
      rw [← String.ofList_toList (s := text), htext]
      rfl
  | cons c cs =>
      rw [htext] at h
      have hfirst : ¬ (c = '"') := fun hc => h (hc ▸ List.mem_cons_self)
      have hlast : (c :: cs).rdropWhile (· = '"') = c :: cs := by
        rw [List.rdropWhile_eq_self_iff]
        intro hne hquote
        exact h (of_decide_eq_true hquote ▸ List.getLast_mem hne)
      rw [List.cons_append, List.dropWhile_cons_of_neg (by simpa using hfirst), ← List.cons_append,
        List.rdropWhile_concat_pos _ _ _ (by simp), hlast, ← htext, String.ofList_toList]

/-- An answer is tagged, or it refreshes the entry the call has read. -/
theorem Heard.tagged {r : OriginResponse Bytes} (h : Heard D files call r)
    (hdirectives : directivesOf r.headers = .ok {}) :
    Tagged D.origin.md5 r ∨ call.Refreshes r := by
  cases h with
  | notModified hfile hcached htag hmatch hstatus =>
      exact Or.inr ⟨hstatus, by simp [hcached], by rw [cacheable_eq hdirectives]; rfl⟩
  | full hfile hcontent hstatus htag => exact Or.inl (Or.inl ⟨hstatus, hcontent ▸ htag⟩)
  | refused hfile hstatus htag =>
      refine Or.inl (Or.inr ⟨fun hc => ?_, htag⟩)
      rw [hc] at hstatus
      exact absurd hstatus (by decide)

/-- **An entry that the origin calls good holds the file.** -/
theorem content_of_match {e : CacheEntry Bytes} {tag : String} {content : Bytes}
    (hinj : Function.Injective D.origin.md5)
    (hhex : ∀ content, '"' ∉ (D.origin.md5 content).toList) (htagged : Tagged D.origin.md5 e.source)
    (htag : e.etag = some tag) (hmatch : stripQuotes tag = D.origin.md5 content) :
    e.statusCode = 200 ∧ e.content = content := by
  rcases htagged with ⟨hstatus, he⟩ | ⟨-, he⟩
  · replace he : e.etag = some (quoted (D.origin.md5 e.content)) := he
    rw [he, Option.some.injEq] at htag
    rw [← htag, stripQuotes_quoted (hhex _)] at hmatch
    exact ⟨hstatus, hinj hmatch⟩
  · cases htag.symm.trans he

/-- The edge is answered as the origin responds. -/
theorem Seen.supplies {s : Deployment} {a : Action} {b : Cdn.Action Bytes} (h : Seen D s a b) :
    Edge.Supplies (Tagged D.origin.md5) s.edge b := by
  intro t r hb τ hτ
  cases h with
  | edge ha => exact absurd hb (ha t _)
  | fail => cases hb
  | @serve u retried call phase hretried hleft ht =>
      obtain ⟨rfl, hfetch⟩ : u = t ∧ OriginClient.fetch (retried ++ [attempt D s.files call]) =
          .answered r := by simpa using hb
      rw [Option.mem_def, ht, Option.some.injEq] at hτ
      obtain ⟨received, hattempt, hheard, hdirectives⟩ := heard D s.files call
      rw [hattempt] at hfetch
      obtain ⟨r', hr', hlt, rfl⟩ := OriginClient.fetch_answered hfetch
      rcases List.mem_append.mp hr' with hmem | hmem
      · exact absurd hlt (not_lt.mpr (hretried _ hmem))
      · cases List.mem_singleton.mp hmem
        rw [← hτ]
        exact hheard.tagged hdirectives

/-- What holds of every answer is kept up in the store. -/
theorem sourced_step {G : OriginResponse Bytes → Prop} {s s' : Deployment} {a : Action}
    (hsupplies : ∀ b, Seen D s a b → Edge.Supplies G s.edge b)
    (hsourced : Edge.Sourced G D.service s.edge) (hstep : s.step D a = some s') :
    Edge.Sourced G D.service s'.edge := by
  rcases step_cases hstep with ⟨b, hseen, hedge, -⟩ | ⟨hedge, -⟩
  · exact Edge.sourced_step hsourced (hsupplies b hseen) hedge
  · exact hedge ▸ hsourced

/-- **What holds of every answer holds of every entry**, and of all that is on its way to the
store. -/
theorem sourced_of_supplies {G : OriginResponse Bytes → Prop}
    (hsupplies : ∀ {s : Deployment} {a : Action} {b : Cdn.Action Bytes}, Seen D s a b →
      Edge.Supplies G s.edge b)
    {maxSizeBytes : Int} {breaker : CircuitBreaker} {wall mono : Time} {p : List Action}
    {s : Deployment}
    (hrun : Lts.run (step D) (start maxSizeBytes breaker wall mono files) p = some s) :
    Edge.Sourced G D.service s.edge :=
  Lts.run_invariant (I := fun s : Deployment => Edge.Sourced G D.service s.edge)
    (fun _ _ _ hsourced hstep => sourced_step (fun _ => hsupplies) hsourced hstep) p
    (Edge.sourced_start maxSizeBytes breaker wall mono) hrun

/-- Every entry is tagged. -/
theorem sourced_run {maxSizeBytes : Int} {breaker : CircuitBreaker} {wall mono : Time}
    {p : List Action} {s : Deployment}
    (hrun : Lts.run (step D) (start maxSizeBytes breaker wall mono files) p = some s) :
    Edge.Sourced (Tagged D.origin.md5) D.service s.edge :=
  sourced_of_supplies (fun hseen => hseen.supplies) hrun

/-! ### What a call comes to whose fetch is complete -/

/-- The reply has status 200 and this content. -/
def Delivers (D : Setup) (content : Bytes) (reply : Reply Bytes) : Prop :=
  (reply.response D.service).statusCode = 200 ∧ (reply.response D.service).content = content

/-- Whenever it goes on, the answer delivers the content. -/
def Holds (D : Setup) (call : Call Bytes) (r : OriginResponse Bytes) (content : Bytes) : Prop :=
  ∀ now, ∃ filed response, settle D.service call r now = .ok (filed, response) ∧
    Delivers D content (.fetched response)

theorem holds_of_heard {r : OriginResponse Bytes} {content : Bytes}
    (hinj : Function.Injective D.origin.md5)
    (hhex : ∀ content, '"' ∉ (D.origin.md5 content).toList)
    (hread : ∀ e, call.cached = some e → Tagged D.origin.md5 e.source)
    (hheard : Heard D files call r) (hdirectives : directivesOf r.headers = .ok {})
    (hfile : fileAt D files call.path = some content) : Holds D call r content := by
  intro now
  have hsettle : settle D.service call r now =
      .ok (some (filing D.service call r now D.service.defaultTtl 0).1,
        (filing D.service call r now D.service.defaultTtl 0).2) := by
    rw [settle_eq, hdirectives]
    rfl
  refine ⟨_, _, hsettle, ?_⟩
  cases hheard with
  | notModified hfile' hcached htag hmatch hstatus =>
      obtain rfl := Option.some.inj (hfile.symm.trans hfile')
      obtain ⟨hok, hcontent⟩ := content_of_match hinj hhex (hread _ hcached) htag hmatch
      have hrefreshes : call.refreshes? r = some _ := (if_pos hstatus).trans hcached
      rw [filing, hrefreshes]
      exact ⟨hok, hcontent⟩
  | full hfile' hcontent hstatus htag =>
      obtain rfl := Option.some.inj (hfile.symm.trans hfile')
      have hrefreshes : call.refreshes? r = none := if_neg (by rw [hstatus]; decide)
      rw [filing, hrefreshes]
      exact ⟨hstatus, hcontent⟩
  | refused hnone => rw [hfile] at hnone; cases hnone

/-- A call that has been answered with `r` and is to deliver the content: it can go on and
then returns it, or it has returned it, or it was cancelled.  A background task returns
nothing. -/
inductive Completed (D : Setup) (s : Edge Bytes) (t : Nat) (role : Role) (call : Call Bytes)
    (r : OriginResponse Bytes) (content : Bytes) : Prop where
  | pending (ht : s.tasks[t]? = some ⟨call, .fetching role (some (.answered r))⟩)
      (hholds : Holds D call r content)
  | returned {reply : Reply Bytes} (ht : s.tasks[t]? = some ⟨call, .returned reply⟩)
      (hrole : role ≠ .background) (hreply : Delivers D content reply)
  | cancelled (ht : s.tasks[t]? = some ⟨call, .raised .cancelled⟩)
  | finished (ht : s.tasks[t]? = some ⟨call, .finished⟩) (hrole : role = .background)

/-- Where a task stands that ends with a reply or is cancelled. -/
theorem endPhase_ok {role : Role} (reply : Reply Bytes) (hrole : role ≠ .background) :
    Edge.endPhase role call (.ok reply) = .returned reply := by
  cases role <;> first | rfl | exact absurd rfl hrole

theorem endPhase_cancelled (role : Role) :
    Edge.endPhase role call (.error .cancelled) = .raised .cancelled := by cases role <;> rfl

/-- A task that goes on with such an answer is done. -/
theorem resume_pending {s : Edge Bytes} {t : Nat} {role : Role} {r : OriginResponse Bytes}
    {content : Bytes} (ht : s.tasks[t]? = some ⟨call, .fetching role (some (.answered r))⟩)
    (hholds : Holds D call r content) :
    ∃ s', s.step D.service (.resume t) = some s' ∧
      (role ≠ .background → ∃ reply, s'.tasks[t]? = some ⟨call, .returned reply⟩ ∧
        Delivers D content reply) ∧
      (role = .background → s'.tasks[t]? = some ⟨call, .finished⟩) := by
  obtain ⟨filed, response, hsettle, hdelivers⟩ := hholds s.wall
  refine ⟨_, Edge.step_settled ht hsettle, fun hrole => ⟨.fetched response, ?_, hdelivers⟩, ?_⟩
  · simp [ht, endPhase_ok _ hrole]
  · rintro rfl
    simp [ht, Edge.endPhase]

theorem completed_step {s s' : Edge Bytes} {b : Cdn.Action Bytes} {t : Nat} {role : Role}
    {r : OriginResponse Bytes} {content : Bytes}
    (hcompleted : Completed D s t role call r content) (hstep : s.step D.service b = some s') :
    Completed D s' t role call r content := by
  cases hcompleted with
  | pending ht hholds =>
      by_cases htask : b.task? = some t
      · cases b with
        | answer u outcome =>
            cases htask
            simp [Edge.step, Edge.act, Edge.answer, ht] at hstep
        | resume u =>
            cases htask
            obtain ⟨s'', hresume, hreturned, hfinished⟩ := resume_pending ht hholds
            obtain rfl := Option.some.inj (hresume.symm.trans hstep)
            by_cases hrole : role = .background
            · exact .finished (hfinished hrole) hrole
            · obtain ⟨reply, ht', hreply⟩ := hreturned hrole
              exact .returned ht' hrole hreply
        | cancel u =>
            cases htask
            obtain ⟨m, hmove, rfl⟩ := Edge.move_of_step hstep
            cases hmove with
            | cancelledScheduled hu => rw [ht] at hu; cases hu
            | cancelledWaiting hu => rw [ht] at hu; cases hu
            | cancelledFetching hu =>
                rw [ht] at hu
                cases hu
                exact .cancelled (by simp [ht, endPhase_cancelled])
        | _ => cases htask
      · obtain ⟨m, hmove, rfl⟩ := Edge.move_of_step hstep
        exact .pending (hmove.frame htask ht) hholds
  | returned ht hrole hreply => exact .returned (Edge.kept_of_over ht rfl hstep) hrole hreply
  | cancelled ht => exact .cancelled (Edge.kept_of_over ht rfl hstep)
  | finished ht hrole => exact .finished (Edge.kept_of_over ht rfl hstep) hrole

theorem completed_run {s s' : Deployment} {t : Nat} {role : Role} {r : OriginResponse Bytes}
    {content : Bytes} {q : List Action} (h : Completed D s.edge t role call r content)
    (hrun : Lts.run (step D) s q = some s') : Completed D s'.edge t role call r content := by
  refine Lts.run_invariant (I := fun s : Deployment => Completed D s.edge t role call r content)
    ?_ q h hrun
  intro s a s' hcompleted hstep
  rcases step_cases hstep with ⟨b, -, hedge, -⟩ | ⟨hedge, -⟩
  · exact completed_step hcompleted hedge
  · exact hedge ▸ hcompleted

/-- The origin serves a request while the file is there. -/
theorem completed_serve {s s' : Deployment} {t : Nat} {retried : List OriginClient.Attempt}
    {role : Role} {content : Bytes} (hinj : Function.Injective D.origin.md5)
    (hhex : ∀ content, '"' ∉ (D.origin.md5 content).toList)
    (hsourced : Edge.Sourced (Tagged D.origin.md5) D.service s.edge)
    (ht : s.edge.tasks[t]? = some ⟨call, .fetching role none⟩)
    (hfile : fileAt D s.files call.path = some content)
    (hstep : s.step D (.serve t retried) = some s') :
    ∃ r, Completed D s'.edge t role call r content := by
  obtain ⟨call', phase, ht', hretried, hleft, htake⟩ := serve_eq_some hstep
  obtain ⟨rfl, -⟩ : call' = call ∧ phase = .fetching role none := by
    rw [ht] at ht'
    cases ht'
    exact ⟨rfl, rfl⟩
  obtain ⟨received, hattempt, hheard, hdirectives⟩ := heard D s.files call'
  have hread := (hsourced.tasks _ (List.mem_of_getElem? ht)).read
  have hstatus : received.statusCode < 500 := by
    cases hheard with
    | notModified _ _ _ _ h => exact lt_of_eq_of_lt h (by decide)
    | full _ _ h => exact lt_of_eq_of_lt h (by decide)
    | refused hnone => rw [hfile] at hnone; cases hnone
  have hanswer := (take_eq_some htake).1
  rw [hattempt, OriginClient.fetch_eq_answered hretried hleft hstatus] at hanswer
  refine ⟨_, .pending ?_ (holds_of_heard hinj hhex hread hheard hdirectives hfile)⟩
  obtain ⟨m, hmove, hs'⟩ := Edge.move_of_step hanswer
  cases hmove with
  | answered hu =>
      rw [ht] at hu
      cases hu
      rw [hs']
      simp [ht]

/-- A call of a client has come back with the content and status 200, or was cancelled. -/
def Concluded (D : Setup) (content : Bytes) (t : Nat) (s : Deployment) : Prop :=
  (∃ call reply, s.edge.tasks[t]? = some ⟨call, .returned reply⟩ ∧ Delivers D content reply) ∨
    ∃ call, s.edge.tasks[t]? = some ⟨call, .raised .cancelled⟩

theorem Completed.concluded {s : Deployment} {t : Nat} {role : Role} {r : OriginResponse Bytes}
    {content : Bytes} (h : Completed D s.edge t role call r content) (hrole : role ≠ .background) :
    Concluded D content t s ∨
      ∃ s', s.step D (.edge (.resume t)) = some s' ∧ Concluded D content t s' := by
  cases h with
  | pending ht hholds =>
      obtain ⟨edge, hresume, hreturned, -⟩ := resume_pending ht hholds
      obtain ⟨reply, ht', hreply⟩ := hreturned hrole
      refine Or.inr ⟨{ s with edge }, ?_, Or.inl ⟨call, reply, ht', hreply⟩⟩
      show s.take D (.resume t) = _
      rw [take, hresume]
      rfl
  | returned ht _ hreply => exact Or.inl (Or.inl ⟨call, _, ht, hreply⟩)
  | cancelled ht => exact Or.inl (Or.inr ⟨call, ht⟩)
  | finished ht h => exact absurd h hrole

/--
**Revalidation is sound.**  Whatever is written at the origin and whatever the calls of the
edge do, in any order: an entry with status 200 has the digest of its own content for a tag;
and a call that the origin serves while the file is there returns that file as it is at that
moment, with status 200, whenever it goes on.
-/
theorem revalidation_sound (D : Setup) (hinj : Function.Injective D.origin.md5)
    (hhex : ∀ content, '"' ∉ (D.origin.md5 content).toList) (maxSizeBytes : Int)
    (breaker : CircuitBreaker) (wall mono : Time) (files : Files) (p : List Action)
    {s : Deployment}
    (hrun : Lts.run (step D) (start maxSizeBytes breaker wall mono files) p = some s) :
    (∀ k e, s.edge.entry k = some e → e.statusCode = 200 →
        e.etag = some (quoted (D.origin.md5 e.content))) ∧
      ∀ t retried call role content s',
        s.edge.tasks[t]? = some ⟨call, .fetching role none⟩ → role ≠ .background →
        fileAt D s.files call.path = some content → s.step D (.serve t retried) = some s' →
        ∀ q s'', Lts.run (step D) s' q = some s'' → Concluded D content t s'' ∨
          ∃ s₁, s''.step D (.edge (.resume t)) = some s₁ ∧ Concluded D content t s₁ := by
  have hsourced := sourced_run hrun
  refine ⟨fun k e he hstatus => ?_, ?_⟩
  · rcases hsourced.entries k e he with ⟨-, htag⟩ | ⟨hne, -⟩
    · exact htag
    · exact absurd hstatus hne
  · intro t retried call role content s' ht hrole hfile hserve q s'' hq
    obtain ⟨r, hcompleted⟩ := completed_serve hinj hhex hsourced ht hfile hserve
    exact (completed_run hcompleted hq).concluded hrole

/-! ### A run -/

/-- The digest of the file below, and for any other content a text of its own. -/
def sampleMd5 (content : Bytes) : String :=
  if content = utf8 "1" then "c4ca4238a0b923820dcc509a6f75849b"
  else String.ofList ('-' :: Percent.encode (fun _ => false) content)

theorem sampleMd5_injective : Function.Injective sampleMd5 := by
  have hplain : Percent.Plain fun _ => false := fun b h => by cases h
  have hother : ∀ content : Bytes, "c4ca4238a0b923820dcc509a6f75849b" ≠
      String.ofList ('-' :: Percent.encode (fun _ => false) content) := by
    intro content h
    have hlist := congrArg String.toList h
    rw [String.toList_ofList, String.toList_ofList] at hlist
    exact absurd (List.cons.inj hlist).1 (by decide)
  intro content content' h
  unfold sampleMd5 at h
  split at h <;> split at h
  · rename_i hc hc'
    rw [hc, hc']
  · exact absurd h (hother _)
  · exact absurd h.symm (hother _)
  · have hlist := congrArg String.toList h
    rw [String.toList_ofList, String.toList_ofList, List.cons.injEq] at hlist
    have hdecode := congrArg Percent.decode hlist.2
    rwa [Percent.decode_encode hplain, Percent.decode_encode hplain] at hdecode

theorem quote_not_mem_sampleMd5 (content : Bytes) : '"' ∉ (sampleMd5 content).toList := by
  have hdigit : ∀ n : Fin 16, '"' ≠ Percent.hexDigit n := by decide
  unfold sampleMd5
  split
  · decide
  · intro h
    rw [String.toList_ofList, List.mem_cons] at h
    rcases h with h | h
    · cases h
    · obtain ⟨b, -, hb⟩ := List.mem_flatMap.mp h
      have hlt : b.toNat < 256 := b.toNat_lt
      simp only [Percent.encodeByte, Bool.false_eq_true, if_false, List.mem_cons, List.not_mem_nil,
        or_false] at hb
      rcases hb with hb | hb | hb
      · cases hb
      · exact hdigit ⟨b.toNat / 16, by omega⟩ hb
      · exact hdigit ⟨b.toNat % 16, by omega⟩ hb

def sampleService : Cdn.Setup Bytes where
  defaultTtl := 60
  digest := sampleDigest
  size := fun content => content.length
  unavailable := utf8 "Service Unavailable: origin is down"

def sampleDeployment : Setup where
  service := sampleService
  origin := { md5 := sampleMd5, guessType := fun _ => none, files := fun _ => none }
  basePath := ⟨["assets".toList], by decide⟩
  framework := plainFramework
  codec := sampleCodec

def sampleFiles : Files := fun file => if file.text = "/assets/a".toList then some (utf8 "1") else none

def sampleStart : Deployment := start 1000 {} 0 0 sampleFiles

/-- The file is fetched, and asked for again when the entry has expired. -/
def sampleRun : List Action :=
  [.edge (.arrive "a" none), .serve 0 [], .edge (.resume 0), .edge (.tick 100 100),
    .edge (.arrive "a" none)]

def sampleReached : Deployment := Lts.last (step sampleDeployment) sampleStart sampleRun

theorem revalidation_sound_expired :
    (∀ k e, sampleReached.edge.entry k = some e → e.statusCode = 200 →
        e.etag = some (quoted (sampleMd5 e.content))) ∧
      ∃ s', sampleReached.step sampleDeployment (.serve 1 [.network]) = some s' ∧
        (Concluded sampleDeployment (utf8 "1") 1 s' ∨
          ∃ s₁, s'.step sampleDeployment (.edge (.resume 1)) = some s₁ ∧
            Concluded sampleDeployment (utf8 "1") 1 s₁) := by
  have hrun : (Lts.run (step sampleDeployment) sampleStart sampleRun).isSome = true := by
    decide +kernel
  have hsound := revalidation_sound sampleDeployment sampleMd5_injective quote_not_mem_sampleMd5
    1000 {} 0 0 sampleFiles sampleRun (Lts.run_last hrun)
  have hwaits : (sampleReached.edge.tasks[1]?).map
      (fun τ => (τ.phase, fileAt sampleDeployment sampleReached.files τ.call.path)) =
      some (.fetching (.leader 1) none, some (utf8 "1")) := by decide +kernel
  have hserve : (sampleReached.step sampleDeployment (.serve 1 [.network])).isSome = true := by
    decide +kernel
  obtain ⟨⟨call, phase⟩, ht, hτ⟩ := Option.map_eq_some_iff.mp hwaits
  obtain ⟨s', hs'⟩ := Option.isSome_iff_exists.mp hserve
  obtain ⟨rfl, hfile⟩ := Prod.mk.inj hτ
  exact ⟨hsound.1, s', hs', hsound.2 1 [.network] call (.leader 1) _ s' ht (by simp) hfile hs' [] s'
    rfl⟩

end Deployment

end Cdn
