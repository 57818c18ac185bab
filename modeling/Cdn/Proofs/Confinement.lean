/-
What the origin reads.

The check against a traversal compares two texts, and that lets through two kinds of
paths: what is under the assets directory, and what is beside it under a name that begins
with the directory's own.  So the origin is confined on every path but the second kind.
-/
import Cdn.Presentation.OriginRoutes

namespace Cdn

open Paths

variable {O : OriginSetup} {basePath : Resolved} {path : List Char}
  {ifNoneMatch rangeHeader : Option String}

/-- Nothing outside the assets directory is read, and a path that leads outside is
forbidden. -/
def Confined (O : OriginSetup) (basePath : Resolved) (path : List Char)
    (ifNoneMatch rangeHeader : Option String) : Prop :=
  let served := serveFile O basePath path ifNoneMatch rangeHeader
  (∀ p ∈ served.reads, Resolved.Under basePath p) ∧
    ∀ p, resolvePath basePath path = .ok p → ¬ Resolved.Under basePath p →
      served.response.map (·.statusCode) = .ok 403

/-! ### What the check does -/

theorem serveFile_forbidden {p : Resolved} (hpath : resolvePath basePath path = .ok p)
    (h : ¬ basePath.text <+: p.text) :
    serveFile O basePath path ifNoneMatch rangeHeader = { response := .ok forbidden } := by
  rw [serveFile, hpath]
  exact if_pos h

/-- What is read has passed the check. -/
theorem text_of_reads {p : Resolved}
    (h : p ∈ (serveFile O basePath path ifNoneMatch rangeHeader).reads) :
    resolvePath basePath path = .ok p ∧ basePath.text <+: p.text := by
  unfold serveFile at h
  split at h
  · cases h
  · rename_i filePath hpath
    split at h
    · cases h
    · rename_i htext
      split at h
      · cases h
      · rw [List.mem_singleton.mp h]
        exact ⟨hpath, not_not.mp htext⟩

theorem handleRange_statusCode (content : Bytes) (header etag contentType : String) :
    (handleRange content header etag contentType).statusCode ∈ [(206 : Int), 416] := by
  unfold handleRange
  split
  · simp [unsatisfiable]
  · simp [unsatisfiable]
  · dsimp only
    split
    · simp [unsatisfiable]
    · simp [partialContent]

/-- A file that is found is never forbidden. -/
theorem serveContent_statusCode (O : OriginSetup) (p : Resolved) (content : Bytes)
    (ifNoneMatch rangeHeader : Option String) :
    (serveContent O p content ifNoneMatch rangeHeader).statusCode ∈ [(200 : Int), 206, 304, 416] := by
  unfold serveContent
  dsimp only
  split
  · simp
  · split
    · have h := handleRange_statusCode content
      simp only [List.mem_cons, List.not_mem_nil, or_false] at h ⊢
      rcases h _ _ _ with h | h
      · exact Or.inr (Or.inl h)
      · exact Or.inr (Or.inr (Or.inr h))
    · simp

/-- A path that passes the check is not forbidden. -/
theorem not_forbidden {p : Resolved} (hpath : resolvePath basePath path = .ok p)
    (h : basePath.text <+: p.text) :
    (serveFile O basePath path ifNoneMatch rangeHeader).response.map (·.statusCode) ≠
      .ok 403 := by
  rw [serveFile, hpath]
  dsimp only
  rw [if_neg (not_not.mpr h)]
  split
  · intro h403
    cases h403
  · rename_i content _
    intro h403
    have h403 : (serveContent O p content ifNoneMatch rangeHeader).statusCode = 403 :=
      Except.ok.inj h403
    have hstatus := serveContent_statusCode O p content ifNoneMatch rangeHeader
    rw [h403] at hstatus
    simp at hstatus

theorem confined_of_not_beside
    (hnot : ∀ p, resolvePath basePath path = .ok p → ¬ Resolved.Beside basePath p) :
    Confined O basePath path ifNoneMatch rangeHeader := by
  have hunder : ∀ p, resolvePath basePath path = .ok p → basePath.text <+: p.text →
      Resolved.Under basePath p := by
    intro p hpath htext
    exact ((Resolved.text_isPrefix basePath p).mp htext).resolve_right (hnot p hpath)
  refine ⟨fun p hp => ?_, fun p hpath houtside => ?_⟩
  · obtain ⟨hpath, htext⟩ := text_of_reads hp
    exact hunder p hpath htext
  · rw [serveFile_forbidden hpath fun htext => houtside (hunder p hpath htext)]
    rfl

/-- **A relative path without `..` does no harm.** -/
theorem confined_of_relative (O : OriginSetup) (basePath : Resolved) {path : List Char}
    (ifNoneMatch rangeHeader : Option String) (hrelative : path.head? ≠ some '/')
    (hup : ['.', '.'] ∉ path.splitOn '/') :
    Confined O basePath path ifNoneMatch rangeHeader := by
  refine confined_of_not_beside fun p hpath hbeside => ?_
  unfold resolvePath at hpath
  split at hpath
  · cases hpath
  · cases hpath
    exact Resolved.not_under_of_beside hbeside (Resolved.resolve_under basePath hrelative hup)

/--
**When the origin is confined.**  On every path, exactly if the path does not lead beside
the assets directory, under a name that begins with the directory's own.
-/
theorem confined_iff (O : OriginSetup) (basePath : Resolved) (path : List Char)
    (ifNoneMatch rangeHeader : Option String) :
    Confined O basePath path ifNoneMatch rangeHeader ↔
      ∀ p, resolvePath basePath path = .ok p → ¬ Resolved.Beside basePath p := by
  constructor
  · rintro ⟨-, houtside⟩ p hpath hbeside
    have h403 := houtside p hpath (Resolved.not_under_of_beside hbeside)
    exact not_forbidden hpath ((Resolved.text_isPrefix basePath p).mpr (Or.inr hbeside)) h403
  · exact confined_of_not_beside

/-- A directory, and one beside it whose name goes on where the first one's ends. -/
def assets : Resolved := ⟨["srv".toList, "assets".toList], by decide⟩

def assetsSecret : Resolved := ⟨["srv".toList, "assets-secret".toList, "key".toList], by decide⟩

/-- An origin with one file. -/
def sampleOrigin (file : Resolved) (content : Bytes) : OriginSetup where
  md5 := fun _ => ""
  guessType := fun _ => none
  files := fun p => if p = file then some content else none

theorem notConfined_beside : ¬ ∀ (O : OriginSetup) (basePath : Resolved) (path : List Char)
    (ifNoneMatch rangeHeader : Option String),
    Confined O basePath path ifNoneMatch rangeHeader := by
  intro h
  have hreads : assetsSecret ∈ (serveFile (sampleOrigin assetsSecret [1]) assets
      "../assets-secret/key".toList none none).reads := by decide +kernel
  exact absurd ((h _ _ _ _ _).1 assetsSecret hreads) (by decide)

end Cdn
