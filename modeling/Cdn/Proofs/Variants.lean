/-
What a key tells of the maps it is made of.

The query is escaped before it is joined, so the text of it tells the parameters.  The Vary
values are joined as they are: an ampersand in a value reads like the end of an item, and two
maps come to one text exactly if their items, cut at every ampersand, are the same pieces.
Either way the items are sorted first, so a key does not depend on the order in which a map
was filled.
-/
import Cdn.Lib.Http
import Cdn.Proofs.Keys

namespace Cdn

/-! ### Escaped text -/

/-- What `quote_plus` leaves alone besides the blank is what `quote` leaves alone. -/
def plusSafe (b : UInt8) : Bool := unreserved b || b == 32

theorem plain_plusSafe : Percent.Plain plusSafe := by
  intro b hb
  rcases Bool.or_eq_true_iff.mp hb with hb | hb
  · exact plain_unreserved b hb
  · rw [beq_iff_eq] at hb
    subst hb
    decide

theorem not_mem_encode_plusSafe {c : Char} (hc : c ∈ ['&', '=', '|', '+']) (bs : List UInt8) :
    c ∉ Percent.encode plusSafe bs := by
  intro hmem
  rcases Percent.mem_encode plain_plusSafe hmem with rfl | ⟨n, hn, rfl⟩ | ⟨b, hb, hcode⟩
  · simp at hc
  · have hall : ∀ m : Fin 16, Percent.hexDigit m ∉ ['&', '=', '|', '+'] := by decide
    exact hall ⟨n, hn⟩ hc
  · have hcodes : c.toNat ∈ [38, 61, 124, 43] := List.mem_map_of_mem hc
    simp only [List.mem_cons, List.not_mem_nil, or_false] at hcodes
    rcases Bool.or_eq_true_iff.mp hb with hb | hb
    · simp only [unreserved, Bool.or_eq_true, Bool.and_eq_true, decide_eq_true_eq,
        beq_iff_eq] at hb
      omega
    · have hblank : b.toNat = 32 := by rw [beq_iff_eq.mp hb]; rfl
      omega

/-- A blank as a plus, and back. -/
def plused (c : Char) : Char := if c = ' ' then '+' else c

def unplused (c : Char) : Char := if c = '+' then ' ' else c

theorem unplused_plused {c : Char} (h : c ≠ '+') : unplused (plused c) = c := by
  unfold plused
  split
  · rename_i hc
    rw [hc]
    rfl
  · exact if_neg h

theorem toList_quotePlus (s : String) :
    (quotePlus s).toList = (Percent.encode plusSafe (utf8 s)).map plused := by
  rw [quotePlus, String.toList_ofList]
  rfl

/-- **Escaping loses nothing.** -/
theorem quotePlus_injective : Function.Injective quotePlus := by
  have hback : ∀ s, (quotePlus s).toList.map unplused = Percent.encode plusSafe (utf8 s) := by
    intro s
    rw [toList_quotePlus, List.map_map]
    conv => rhs; rw [← List.map_id (Percent.encode plusSafe (utf8 s))]
    refine List.map_congr_left fun c hc => unplused_plused fun hplus => ?_
    exact not_mem_encode_plusSafe (by simp) (utf8 s) (hplus ▸ hc)
  intro s t h
  have hcodes : Percent.encode plusSafe (utf8 s) = Percent.encode plusSafe (utf8 t) := by
    rw [← hback, ← hback, h]
  exact utf8_injective (Percent.encode_injective plain_plusSafe hcodes)

/-- Escaped text has none of the characters a query is put together with. -/
theorem not_mem_quotePlus {c : Char} (hc : c ∈ ['&', '=', '|']) (s : String) :
    c ∉ (quotePlus s).toList := by
  rw [toList_quotePlus]
  intro hmem
  obtain ⟨d, hd, rfl⟩ := List.mem_map.mp hmem
  unfold plused at hc
  split at hc
  · simp at hc
  · exact not_mem_encode_plusSafe (List.mem_append_left ['+'] hc) (utf8 s) hd

/-! ### What a query tells -/

/-- A parameter, as it stands in a query. -/
def paramText (kv : String × String) : List Char :=
  (quotePlus kv.1).toList ++ '=' :: (quotePlus kv.2).toList

theorem paramText_injective : Function.Injective paramText := by
  intro kv kv' h
  have heq : '=' ∈ ['&', '=', '|'] := by simp
  obtain ⟨hname, hvalue⟩ := Scan.sep_append_inj (not_mem_quotePlus heq _) (not_mem_quotePlus heq _) h
  exact Prod.ext (quotePlus_injective (String.toList_inj.mp hname))
    (quotePlus_injective (String.toList_inj.mp hvalue))

theorem not_mem_paramText {c : Char} (hc : c = '&' ∨ c = '|') (kv : String × String) :
    c ∉ paramText kv := by
  have hsep : c ∈ ['&', '=', '|'] := by rcases hc with rfl | rfl <;> simp
  have hne : c ≠ '=' := by rcases hc with rfl | rfl <;> decide
  rw [paramText, List.mem_append, List.mem_cons, not_or, not_or]
  exact ⟨not_mem_quotePlus hsep _, hne, not_mem_quotePlus hsep _⟩

theorem toList_urlencode (params : List (String × String)) :
    (urlencode params).toList = ['&'].intercalate (params.map paramText) := by
  rw [urlencode, String.toList_intercalate, List.map_map]
  congr 1
  refine List.map_congr_left fun kv _ => ?_
  show (quotePlus kv.1 ++ "=" ++ quotePlus kv.2).toList = paramText kv
  rw [String.toList_append, String.toList_append, List.append_assoc]
  rfl

/-- **A query tells its parameters, in their order.** -/
theorem urlencode_injective : Function.Injective urlencode := by
  have hparts : ∀ params : List (String × String),
      ((urlencode params).toList.splitOn '&').filter (fun part => !part.isEmpty) =
        params.map paramText := by
    intro params
    rw [toList_urlencode, Scan.filter_splitOn_intercalate]
    · intro part hpart
      obtain ⟨kv, -, rfl⟩ := List.mem_map.mp hpart
      rw [paramText]
      exact List.append_ne_nil_of_right_ne_nil _ (List.cons_ne_nil _ _)
    · intro part hpart
      obtain ⟨kv, -, rfl⟩ := List.mem_map.mp hpart
      exact not_mem_paramText (Or.inl rfl) kv
  intro params params' h
  refine List.map_injective_iff.mpr paramText_injective ?_
  show params.map paramText = params'.map paramText
  rw [← hparts, ← hparts, h]

theorem pipe_not_mem_urlencode (params : List (String × String)) :
    '|' ∉ (urlencode params).toList := by
  rw [toList_urlencode]
  intro hmem
  rcases Scan.eq_or_mem_of_mem_intercalate hmem with heq | ⟨part, hpart, hmem⟩
  · cases heq
  · obtain ⟨kv, -, rfl⟩ := List.mem_map.mp hpart
    exact not_mem_paramText (Or.inr rfl) kv hmem

/-! ### What the Vary values tell -/

/-- An item of the Vary values, as it stands in the text that is hashed. -/
def varyItem (kv : String × String) : List Char := (kv.1 ++ "=" ++ kv.2).toList

/-- The items in the order of their names, cut at every ampersand. -/
def varyPieces (d : Headers) : List (List Char) :=
  (CacheKey.sortedItems d).flatMap fun kv => split '&' (varyItem kv)

theorem perm_sortedItems (d : Headers) : (CacheKey.sortedItems d).Perm d.items :=
  List.perm_insertionSort _ _

theorem sortedItems_ne_nil {d : Headers} (h : d.items ≠ []) : CacheKey.sortedItems d ≠ [] := by
  intro hnil
  have hperm := perm_sortedItems d
  rw [hnil] at hperm
  exact h hperm.nil_eq.symm

theorem splitOn_varyText {d : Headers} (h : d.items ≠ []) :
    (CacheKey.varyText d).toList.splitOn '&' = varyPieces d := by
  rw [CacheKey.varyText, String.toList_intercalate, List.map_map]
  have hne : (CacheKey.sortedItems d).map varyItem ≠ [] :=
    fun hnil => sortedItems_ne_nil h (List.map_eq_nil_iff.mp hnil)
  have hsplit := Scan.splitOn_intercalate_flatMap (x := '&') hne
  rw [List.flatMap_map] at hsplit
  exact hsplit

/-- **The text that is hashed tells the pieces, and no more.** -/
theorem varyText_eq_iff {d d' : Headers} (h : d.items ≠ []) (h' : d'.items ≠ []) :
    CacheKey.varyText d = CacheKey.varyText d' ↔ varyPieces d = varyPieces d' := by
  rw [← splitOn_varyText h, ← splitOn_varyText h']
  constructor
  · intro heq
    rw [heq]
  · intro heq
    have hlist := congrArg ['&'].intercalate heq
    rw [List.intercalate_splitOn, List.intercalate_splitOn] at hlist
    exact String.toList_inj.mp hlist

theorem varyPieces_eq_nil_iff {d : Headers} : varyPieces d = [] ↔ d.items = [] := by
  constructor
  · intro h
    by_contra hne
    obtain ⟨kv, rest, hsorted⟩ := List.exists_cons_of_ne_nil (sortedItems_ne_nil hne)
    rw [varyPieces, hsorted, List.flatMap_cons, List.append_eq_nil_iff] at h
    exact List.splitOn_ne_nil '&' (varyItem kv) h.1
  · intro h
    rw [varyPieces, CacheKey.sortedItems, h]
    rfl

/-! ### Maps that may be missing -/

/-- The same map; one without items is the same as none. -/
def SameMap (m m' : Option Headers) : Prop := ∀ name, (m.getD ∅).get? name = (m'.getD ∅).get? name

theorem sortedItems_eq_of_perm {d d' : Headers} (h : d.items.Perm d'.items) :
    CacheKey.sortedItems d = CacheKey.sortedItems d' :=
  Dict.insertionSort_items_eq h

/-- **Sorted items tell the map.** -/
theorem sameMap_iff {m m' : Option Headers} :
    SameMap m m' ↔ CacheKey.sortedItems (m.getD ∅) = CacheKey.sortedItems (m'.getD ∅) := by
  constructor
  · intro h
    exact sortedItems_eq_of_perm (Dict.perm_items_iff.mpr h)
  · intro h
    refine Dict.perm_items_iff.mp ((perm_sortedItems (m.getD ∅)).symm.trans ?_)
    rw [h]
    exact perm_sortedItems (m'.getD ∅)

/-! ### What a key tells -/

namespace CacheKey

/-- A part of a key that is left out where it is empty. -/
def behind (mark text : List Char) : List Char := if text = [] then [] else mark ++ text

theorem behind_injective {mark : List Char} (h : mark ≠ []) :
    Function.Injective (behind mark) := by
  intro text text' heq
  unfold behind at heq
  split at heq <;> split at heq
  · rename_i ht ht'
    rw [ht, ht']
  · exact absurd (List.append_eq_nil_iff.mp heq.symm).1 h
  · exact absurd (List.append_eq_nil_iff.mp heq).1 h
  · exact List.append_cancel_left heq

theorem toList_key (k : CacheKey) :
    k.key.toList = (k.method ++ ":" ++ k.path).toList ++
      (behind ['?'] k.query.toList ++ behind "|vary=".toList k.varyHash.toList) := by
  have hempty : ∀ s : String, s.toList = [] ↔ s = "" := fun s => String.toList_eq_nil_iff
  unfold key behind
  by_cases hq : k.query = "" <;> by_cases hv : k.varyHash = "" <;>
    simp [hempty, hq, hv]

/-- **The key of one method and path tells the query and the hash.** -/
theorem key_eq_iff {k k' : CacheKey} (hmethod : k.method = k'.method) (hpath : k.path = k'.path)
    (hpipe : '|' ∉ k.query.toList) (hpipe' : '|' ∉ k'.query.toList) :
    k.key = k'.key ↔ k.query = k'.query ∧ k.varyHash = k'.varyHash := by
  have hfront : ∀ {q : String}, '|' ∉ q.toList → ∀ h : String,
      (behind ['?'] q.toList ++ behind "|vary=".toList h.toList).takeWhile (· ≠ '|') =
        behind ['?'] q.toList := by
    intro q hq h
    have hquery : ∀ c ∈ behind ['?'] q.toList, decide (c ≠ '|') = true := by
      intro c hc
      unfold behind at hc
      split at hc
      · cases hc
      · rw [decide_eq_true_eq]
        rintro rfl
        rcases List.mem_cons.mp hc with hc | hc
        · cases hc
        · exact hq hc
    have hhash : Scan.Stops (· ≠ '|') (behind "|vary=".toList h.toList) := by
      unfold behind
      split
      · exact Scan.stops_nil _
      · exact Scan.stops_cons (by decide) _
    rw [List.takeWhile_append_of_pos hquery, hhash.takeWhile, List.append_nil]
  rw [← String.toList_inj, toList_key, toList_key, hmethod, hpath, List.append_cancel_left_eq]
  constructor
  · intro heq
    have hquery := congrArg (List.takeWhile (· ≠ '|')) heq
    rw [hfront hpipe, hfront hpipe'] at hquery
    rw [hquery, List.append_cancel_left_eq] at heq
    exact ⟨String.toList_inj.mp (behind_injective (List.cons_ne_nil _ _) hquery),
      String.toList_inj.mp (behind_injective (by decide) heq)⟩
  · rintro ⟨hquery, hhash⟩
    rw [hquery, hhash]

variable (digest : Digest)

theorem fromRequest_query (method path : String) (q v : Option Headers) :
    (fromRequest digest method path q v).query = urlencode (sortedItems (q.getD ∅)) := by
  cases q with
  | none => rfl
  | some q =>
      show (if q.items = [] then "" else urlencode (sortedItems q)) = urlencode (sortedItems q)
      split
      · rename_i h
        rw [sortedItems, h]
        rfl
      · rfl

theorem fromRequest_varyHash (method path : String) (q v : Option Headers) :
    (fromRequest digest method path q v).varyHash =
      if (v.getD ∅).items = [] then "" else digest.hash (varyText (v.getD ∅)) := by
  cases v with
  | none => rfl
  | some v => rfl

/-- **Two requests of one method and path share a key** exactly if their queries are the same
map and their Vary values come to the same pieces. -/
theorem fromRequest_key_eq_iff (hcollide : Function.Injective digest.hash) (method path : String)
    (q q' v v' : Option Headers) :
    (fromRequest digest method path q v).key = (fromRequest digest method path q' v').key ↔
      SameMap q q' ∧ varyPieces (v.getD ∅) = varyPieces (v'.getD ∅) := by
  have hpipe : ∀ q v : Option Headers,
      '|' ∉ (fromRequest digest method path q v).query.toList := by
    intro q v
    rw [fromRequest_query]
    exact pipe_not_mem_urlencode _
  have hkey : (fromRequest digest method path q v).key =
      (fromRequest digest method path q' v').key ↔ _ ∧ _ :=
    key_eq_iff rfl rfl (hpipe q v) (hpipe q' v')
  rw [hkey, fromRequest_query, fromRequest_query, urlencode_injective.eq_iff, sameMap_iff,
    fromRequest_varyHash, fromRequest_varyHash]
  refine and_congr_right fun _ => ?_
  by_cases hv : (v.getD ∅).items = [] <;> by_cases hv' : (v'.getD ∅).items = []
  · rw [if_pos hv, if_pos hv', varyPieces_eq_nil_iff.mpr hv, varyPieces_eq_nil_iff.mpr hv']
    exact iff_of_true rfl rfl
  · rw [if_pos hv, if_neg hv', varyPieces_eq_nil_iff.mpr hv]
    exact iff_of_false (digest.nonempty _).symm fun h => hv' (varyPieces_eq_nil_iff.mp h.symm)
  · rw [if_neg hv, if_pos hv', varyPieces_eq_nil_iff.mpr hv']
    exact iff_of_false (digest.nonempty _) fun h => hv (varyPieces_eq_nil_iff.mp h)
  · rw [if_neg hv, if_neg hv', hcollide.eq_iff, varyText_eq_iff hv hv']

/-! ### Whether a key tells the variants apart -/

/-- Equal keys are of equal maps. -/
def Separates (method path : String) (q q' v v' : Option Headers) : Prop :=
  (fromRequest digest method path q v).key = (fromRequest digest method path q' v').key →
    SameMap q q' ∧ SameMap v v'

/-- **A key tells the variants apart**, unless the queries are the same and two different Vary
maps, cut at the ampersands, come to the same pieces. -/
theorem separates_iff (hcollide : Function.Injective digest.hash) (method path : String)
    (q q' v v' : Option Headers) :
    Separates digest method path q q' v v' ↔
      ¬ (SameMap q q' ∧ ¬ SameMap v v' ∧ varyPieces (v.getD ∅) = varyPieces (v'.getD ∅)) := by
  rw [Separates, fromRequest_key_eq_iff digest hcollide]
  constructor
  · rintro h ⟨hq, hv, hpieces⟩
    exact hv (h ⟨hq, hpieces⟩).2
  · rintro h ⟨hq, hpieces⟩
    refine ⟨hq, ?_⟩
    by_contra hv
    exact h ⟨hq, hv, hpieces⟩

/-- Two codings of one file. -/
theorem separates_iff_codings :
    Separates sampleDigest "GET" "style.css" none none gzip
      (some (Dict.ofList [("accept-encoding", "br")])) :=
  (separates_iff sampleDigest sampleHash_injective "GET" "style.css" none none gzip
    (some (Dict.ofList [("accept-encoding", "br")]))).mpr fun h => absurd h.2.2 (by decide +kernel)

/-- Two Vary maps with different values under one key. -/
theorem not_separates_ampersand :
    Function.Injective sampleDigest.hash ∧
      ¬ Separates sampleDigest "GET" "style.css" none none
        (some (Dict.ofList [("accept-encoding", "gzip&accept-language=de")]))
        (some (Dict.ofList [("accept-encoding", "gzip"), ("accept-language", "de")])) := by
  refine ⟨sampleHash_injective, fun h => ?_⟩
  have hpieces : varyPieces (Dict.ofList [("accept-encoding", "gzip&accept-language=de")]) =
      varyPieces (Dict.ofList [("accept-encoding", "gzip"), ("accept-language", "de")]) := by
    decide +kernel
  have hkey := (fromRequest_key_eq_iff sampleDigest sampleHash_injective "GET" "style.css" none none
    (some (Dict.ofList [("accept-encoding", "gzip&accept-language=de")]))
    (some (Dict.ofList [("accept-encoding", "gzip"), ("accept-language", "de")]))).mpr
      ⟨fun _ => rfl, hpieces⟩
  have hlanguage := (h hkey).2 "accept-language"
  revert hlanguage
  decide +kernel

/-- Without ampersands there is nothing to cut. -/
theorem varyPieces_eq {d : Headers} (h : ∀ kv ∈ d.items, '&' ∉ varyItem kv) :
    varyPieces d = (sortedItems d).map varyItem := by
  rw [varyPieces, List.map_eq_flatMap]
  refine List.flatMap_congr fun kv hkv => ?_
  exact List.splitOn_eq_singleton (h kv ((perm_sortedItems d).subset hkv))

/-- An item whose name has no `=` tells name and value. -/
theorem varyItem_inj {kv kv' : String × String} (h : '=' ∉ kv.1.toList) (h' : '=' ∉ kv'.1.toList)
    (heq : varyItem kv = varyItem kv') : kv = kv' := by
  have hsplit : ∀ kv : String × String, varyItem kv = kv.1.toList ++ '=' :: kv.2.toList := by
    intro kv
    rw [varyItem, String.toList_append, String.toList_append, List.append_assoc]
    rfl
  rw [hsplit, hsplit] at heq
  obtain ⟨hname, hvalue⟩ := Scan.sep_append_inj h h' heq
  exact Prod.ext (String.toList_inj.mp hname) (String.toList_inj.mp hvalue)

/-- Vary values that cannot be mistaken: no ampersand, and no `=` in a name. -/
def PlainVary (d : Headers) : Prop := ∀ kv ∈ d.items, '&' ∉ varyItem kv ∧ '=' ∉ kv.1.toList

theorem subset_of_varyPieces_eq {d d' : Headers} (h : PlainVary d) (h' : PlainVary d')
    (hpieces : varyPieces d = varyPieces d') : d.items ⊆ d'.items := by
  intro kv hkv
  have hmem : varyItem kv ∈ (sortedItems d').map varyItem := by
    rw [← varyPieces_eq fun kv hkv => (h' kv hkv).1, ← hpieces,
      varyPieces_eq fun kv hkv => (h kv hkv).1]
    exact List.mem_map_of_mem ((perm_sortedItems d).mem_iff.mpr hkv)
  obtain ⟨kv', hkv', heq⟩ := List.mem_map.mp hmem
  have hitem : kv' ∈ d'.items := (perm_sortedItems d').subset hkv'
  exact varyItem_inj (h' kv' hitem).2 (h kv hkv).2 heq ▸ hitem

/-- **Plain Vary values are told apart.** -/
theorem separates_of_plain (hcollide : Function.Injective digest.hash) {method path : String}
    {q q' v v' : Option Headers} (hv : PlainVary (v.getD ∅)) (hv' : PlainVary (v'.getD ∅)) :
    Separates digest method path q q' v v' := by
  rw [Separates, fromRequest_key_eq_iff digest hcollide]
  rintro ⟨hq, hpieces⟩
  refine ⟨hq, Dict.perm_items_iff.mp ?_⟩
  rw [List.perm_ext_iff_of_nodup (Dict.items_nodup _) (Dict.items_nodup _)]
  intro kv
  exact ⟨fun h => subset_of_varyPieces_eq hv hv' hpieces h,
    fun h => subset_of_varyPieces_eq hv' hv hpieces.symm h⟩

/-! ### The order in which a map was filled -/

theorem toUpper_eq_of_lowerName {method method' : String}
    (h : Http.lowerName method = Http.lowerName method') : method.toUpper = method'.toUpper := by
  have hupper : ∀ m : String, m.toUpper.toList = (Http.lowerName m).toList.map Char.toUpper := by
    intro m
    rw [Http.lowerName, String.toList_ofList, List.map_map, String.toUpper, String.toList_map]
    refine List.map_congr_left fun c _ => ?_
    exact (Char.toUpper_toLower_eq_toUpper c).symm
  rw [← String.toList_inj, hupper, hupper, h]

/-- **A key depends neither on the order of a map nor on the case of the method.** -/
theorem fromRequest_perm {method method' : String}
    (hmethod : Http.lowerName method = Http.lowerName method') (path : String)
    {q q' v v' : Option Headers} (hq : (q.getD ∅).items.Perm (q'.getD ∅).items)
    (hv : (v.getD ∅).items.Perm (v'.getD ∅).items) :
    fromRequest digest method path q v = fromRequest digest method' path q' v' ∧
      (fromRequest digest method path q v).key = (fromRequest digest method' path q' v').key := by
  have heq : fromRequest digest method path q v = fromRequest digest method' path q' v' := by
    refine CacheKey.ext (toUpper_eq_of_lowerName hmethod) rfl ?_ ?_
    · rw [fromRequest_query, fromRequest_query, sortedItems_eq_of_perm hq]
    · have hempty : (v.getD ∅).items = [] ↔ (v'.getD ∅).items = [] :=
        ⟨fun h => (h ▸ hv).nil_eq.symm, fun h => (h ▸ hv.symm).nil_eq.symm⟩
      rw [fromRequest_varyHash, fromRequest_varyHash, varyText, varyText, sortedItems_eq_of_perm hv]
      simp only [hempty]
  exact ⟨heq, congrArg key heq⟩

theorem fromRequest_perm_swapped :
    fromRequest sampleDigest "get" "api" (some (Dict.ofList [("b", "2"), ("a", "1")]))
        (some (Dict.ofList [("accept-language", "en"), ("accept-encoding", "gzip")])) =
      fromRequest sampleDigest "GET" "api" (some (Dict.ofList [("a", "1"), ("b", "2")]))
        (some (Dict.ofList [("accept-encoding", "gzip"), ("accept-language", "en")])) :=
  (fromRequest_perm sampleDigest (by decide +kernel) "api" (by decide +kernel)
    (by decide +kernel)).1

end CacheKey

end Cdn
