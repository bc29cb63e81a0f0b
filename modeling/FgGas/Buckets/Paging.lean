import Mathlib.Data.Prod.Lex
import Mathlib.Order.Fin.Basic
import FgGas.Buckets.Reference
import FgGas.Listing.Keyset

/-!
# Paging through a bucket

The list of a query is one descending list of positions, and each page takes its rows off the
front of what the cursor leaves: up to the last row shown, or up to the edge of the scan
budget. Whether the plan is exact or bounded, following the cursors lists every row the query
asks for once, newest first, and a page is complete when none is left.
-/

namespace FgGas.Buckets

open Listing

variable {τ ι : Type} [LinearOrder τ] [LinearOrder ι]

/-- Where a row stands in a list. -/
def position (d : Document τ ι) : τ ×ₗ ι := toLex (d.time, d.id)

/-- The rows that pass a filter, as a list shows them. -/
def listed (rows : List (Document τ ι)) (parts : List (Part τ ι)) : List (Document τ ι) :=
  (rows.filter (passes parts)).mergeSort newerFirst

variable {rows : List (Document τ ι)} {parts parts' : List (Part τ ι)} {d e : Document τ ι}

theorem mem_listed : d ∈ listed rows parts ↔ d ∈ rows ∧ passes parts d = true := by
  simp [listed]

theorem passes_append : passes (parts ++ parts') d = (passes parts d && passes parts' d) := by
  simp [passes]

theorem newerFirst_iff : newerFirst d e = true ↔ position e ≤ position d := by
  simp [newerFirst, position, Prod.Lex.toLex_le_toLex]

/-- With ids of their own, rows stand at places of their own. -/
theorem listed_descending (hids : (rows.map Document.id).Nodup) (parts : List (Part τ ι)) :
    Descending position (listed rows parts) := by
  have hsorted : (listed rows parts).Pairwise fun a b ↦ newerFirst a b = true := by
    refine List.pairwise_mergeSort (fun a b c hab hbc ↦ ?_) (fun a b ↦ ?_) _
    · rw [newerFirst_iff] at hab hbc ⊢
      exact hbc.trans hab
    · rw [Bool.or_eq_true, newerFirst_iff, newerFirst_iff]
      exact le_total _ _
  have hnodup : (listed rows parts).Pairwise fun a b ↦ a.id ≠ b.id := by
    have hrows := List.pairwise_map.mp hids
    have hperm := List.mergeSort_perm (rows.filter (passes parts)) newerFirst
    exact (hperm.pairwise_iff fun h ↦ h.symm).mpr (hrows.filter _)
  refine (hsorted.and hnodup).imp fun {a b} hab ↦ ?_
  refine lt_of_le_of_ne (newerFirst_iff.mp hab.1) fun heq ↦ hab.2 ?_
  exact (congrArg (fun p : τ ×ₗ ι ↦ (ofLex p).2) heq).symm

/-- More parts filter the list. -/
theorem listed_append (hids : (rows.map Document.id).Nodup) :
    listed rows (parts ++ parts') = (listed rows parts).filter (passes parts') := by
  refine (listed_descending hids _).eq_of_perm ((listed_descending hids _).filter _) ?_
  have hleft := List.mergeSort_perm (rows.filter (passes (parts ++ parts'))) newerFirst
  have hright := (List.mergeSort_perm (rows.filter (passes parts)) newerFirst).filter
    (passes parts')
  have hsame : rows.filter (passes (parts ++ parts')) =
      (rows.filter (passes parts)).filter (passes parts') := by
    rw [List.filter_filter]
    exact List.filter_congr fun d _ ↦ by rw [passes_append, Bool.and_comm]
  exact hleft.trans (hsame ▸ hright.symm)

/-! ### The parts that page -/

/-- The rows below the cursor. -/
theorem passes_keysetParts {read : Read τ ι} :
    passes (keysetParts read) d = true ↔
      Below (read.query.cursor.map toLex) (position d) := by
  cases h : read.query.cursor with
  | none => simp [keysetParts, h, passes, Below]
  | some c =>
    obtain ⟨t, i⟩ := c
    have hbelow : Below (some (toLex (t, i))) (position d) ↔
        d.time < t ∨ d.time = t ∧ d.id < i := by
      simp [position, Prod.Lex.toLex_lt_toLex]
    rw [Option.map_some, hbelow]
    simp only [keysetParts, h, passes, List.all_cons, List.all_nil, Part.admits, Comparison.holds,
      Bool.and_true, Bool.and_eq_true, decide_eq_true_eq, not_and, not_le]
    constructor
    · rintro ⟨hle, htie⟩
      rcases hle.lt_or_eq with hlt | heq
      · exact .inl hlt
      · exact .inr ⟨heq, htie heq⟩
    · rintro (hlt | ⟨heq, hlt⟩)
      · exact ⟨hlt.le, fun heq ↦ absurd heq hlt.ne⟩
      · exact ⟨heq.le, fun _ ↦ hlt⟩

/-- The rows from the edge on. -/
theorem passes_withinEdge {edge : Option (Document τ ι)} :
    passes (withinEdge edge) d = true ↔ ∀ e ∈ edge, position e ≤ position d := by
  cases edge with
  | none => simp [withinEdge, passes]
  | some e =>
    simp only [withinEdge, passes, List.all_cons, List.all_nil, Part.admits, Comparison.holds,
      Option.mem_some_iff, forall_eq', position, Prod.Lex.toLex_le_toLex, Bool.and_true,
      Bool.and_eq_true, decide_eq_true_eq, not_and, not_lt]
    constructor
    · rintro ⟨hle, htie⟩
      rcases hle.lt_or_eq with hlt | heq
      · exact .inl hlt
      · exact .inr ⟨heq, htie heq.symm⟩
    · rintro (hlt | ⟨heq, hle⟩)
      · exact ⟨hlt.le, fun heq ↦ absurd heq hlt.ne'⟩
      · exact ⟨heq.le, fun _ ↦ hle⟩

/-- The edge is a row, strictly older than the cursor. -/
theorem readEdge_below {read : Read τ ι} (h : readEdge rows read = some e) :
    e ∈ rows ∧ Below (read.query.cursor.map toLex) (position e) := by
  have hmem := List.mem_of_mem_head? h
  have hlisted := List.mem_of_mem_drop (List.mem_of_mem_take hmem)
  obtain ⟨hrow, hpasses⟩ := mem_listed.mp hlisted
  refine ⟨hrow, ?_⟩
  have holder : (olderThanCursor read).admits e = true :=
    List.all_eq_true.mp hpasses _ (by simp)
  intro c hc
  obtain ⟨⟨t, i⟩, hcursor, rfl⟩ := Option.map_eq_some_iff.mp hc
  have hlt : e.time < t := by
    simpa [olderThanCursor, hcursor, Part.admits, Comparison.holds] using holder
  exact Prod.Lex.toLex_lt_toLex.mpr (.inl hlt)

/-! ### One page -/

/-- What the list still has to show from a cursor on. -/
def remaining (rows : List (Document τ ι)) (read : Read τ ι) (c : Option (τ × ι)) :
    List (Document τ ι) :=
  rest position (listed rows (selectParts read)) (c.map toLex)

/-- What a page reads: what remains, down to the edge, and one row more than it shows. -/
theorem readRows_eq (hids : (rows.map Document.id).Nodup) (read : Read τ ι)
    (edge : Option (Document τ ι)) :
    readRows rows read edge =
      ((remaining rows read read.query.cursor).filter
        fun d ↦ ∀ e ∈ edge, position e ≤ position d).take (read.query.limit + 1) := by
  have hsame : ∀ d, passes (rowParts read edge) d =
      passes (selectParts read ++ (keysetParts read ++ withinEdge edge)) d := by
    intro d
    simp only [rowParts, selectParts, passes_append, Bool.and_assoc]
    cases passes (matchParts read) d <;> cases passes (keysetParts read) d <;>
      cases passes [residualPart read] d <;> rfl
  have hrows : rows.filter (passes (rowParts read edge)) =
      rows.filter (passes (selectParts read ++ (keysetParts read ++ withinEdge edge))) :=
    List.filter_congr fun d _ ↦ hsame d
  have hlisted : readRows rows read edge =
      (listed rows (selectParts read ++ (keysetParts read ++ withinEdge edge))).take
        (read.query.limit + 1) := by
    rw [readRows, find, hrows, List.drop_zero, listed]
  rw [hlisted, listed_append hids, remaining, rest, List.filter_filter]
  congr 1
  refine List.filter_congr fun d _ ↦ ?_
  rw [passes_append, Bool.and_comm, Bool.eq_iff_iff, Bool.and_eq_true, Bool.and_eq_true,
    passes_withinEdge, passes_keysetParts, decide_eq_true_eq, decide_eq_true_eq]

/-- How a page ends that starts with `rest` remaining below the cursor: after its last row, at
an edge, or with nothing left. -/
inductive PageEnd (codec : Codec τ ι) (rows : List (Document τ ι)) (c : Option (τ ×ₗ ι))
    (rest : List (Document τ ι)) (limit : Nat) : BucketPage τ ι → Prop
  | after {last : Document τ ι} (hlast : rest[limit - 1]? = some last) :
      PageEnd codec rows c rest limit (pageAfter codec (rest.take limit) last)
  | within {e : Document τ ι} (hrow : e ∈ rows) (hbelow : Below c (position e)) :
      PageEnd codec rows c rest limit
        (pageWithin codec (rest.filter fun d ↦ position e ≤ position d) (some e))
  | done : PageEnd codec rows c rest limit (pageWithin codec rest none)

theorem remaining_descending (hids : (rows.map Document.id).Nodup) (read : Read τ ι)
    (c : Option (τ × ι)) : Descending position (remaining rows read c) :=
  (listed_descending hids _).filter _

/-- What a page may show is the front of what remains. -/
theorem remaining_split (hids : (rows.map Document.id).Nodup) (read : Read τ ι)
    (c : Option (τ × ι)) (edge : Option (Document τ ι)) :
    ∃ below, remaining rows read c =
      (remaining rows read c).filter (fun d ↦ ∀ e ∈ edge, position e ≤ position d) ++ below := by
  cases edge with
  | none => exact ⟨[], by simp⟩
  | some e =>
    refine ⟨(remaining rows read c).filter fun d ↦ position d < position e, ?_⟩
    simpa using (remaining_descending hids read c).split (position e)

/-- Every page ends in one of the three ways. -/
theorem readPage_end (hids : (rows.map Document.id).Nodup) (codec : Codec τ ι) (read : Read τ ι)
    (hlimit : 1 ≤ read.query.limit) :
    PageEnd codec rows (read.query.cursor.map toLex) (remaining rows read read.query.cursor)
      read.query.limit (readPage codec rows read) := by
  obtain ⟨edge, hedge⟩ : ∃ edge, edge =
      if read.plan.kind = .bounded then readEdge rows read else none := ⟨_, rfl⟩
  obtain ⟨below, hsplit⟩ := remaining_split hids read read.query.cursor edge
  have hdocs := readRows_eq hids read edge
  unfold readPage
  rw [← hedge]
  dsimp only
  rw [hdocs]
  generalize hrest : remaining rows read read.query.cursor = rest at hsplit ⊢
  generalize hwindow : rest.filter (fun d ↦ ∀ e ∈ edge, position e ≤ position d) = window
    at hsplit ⊢
  have hkept : (window.take (read.query.limit + 1)).take read.query.limit =
      window.take read.query.limit := by
    rw [List.take_take, Nat.min_eq_left (Nat.le_succ _)]
  rw [hkept]
  -- a page that is not full shows all that stands above its edge
  have hwithin : window.length ≤ read.query.limit →
      PageEnd codec rows (read.query.cursor.map toLex) rest read.query.limit
        (pageWithin codec (window.take read.query.limit) edge) := by
    intro hshort
    rw [List.take_of_length_le hshort, ← hwindow]
    cases hcase : edge with
    | none => simpa using PageEnd.done
    | some e =>
      have hread : readEdge rows read = some e := by
        rw [hcase] at hedge
        split at hedge
        · exact hedge.symm
        · cases hedge
      obtain ⟨hrow, hbelow⟩ := readEdge_below hread
      simpa using PageEnd.within hrow hbelow
  by_cases hfull : read.query.limit < window.length
  · have hlast : ∃ last, window[read.query.limit - 1]? = some last :=
      ⟨_, List.getElem?_eq_getElem (by omega)⟩
    obtain ⟨last, hlast⟩ := hlast
    have hgetLast : (window.take read.query.limit).getLast? = some last := by
      rw [List.getLast?_eq_getElem?, List.length_take, Nat.min_eq_left hfull.le,
        List.getElem?_take_of_lt (by omega), hlast]
    have hlong : read.query.limit < (window.take (read.query.limit + 1)).length := by
      rw [List.length_take]
      omega
    rw [hgetLast]
    simp only [hlong, if_true]
    have htake : rest.take read.query.limit = window.take read.query.limit := by
      rw [hsplit, List.take_append_of_le_length hfull.le]
    rw [← htake]
    refine .after ?_
    rw [hsplit, List.getElem?_append_left (by omega), hlast]
  · have hshort : ¬ read.query.limit < (window.take (read.query.limit + 1)).length := by
      rw [List.length_take]
      omega
    cases hgetLast : (window.take read.query.limit).getLast? with
    | none => exact hwithin (not_lt.mp hfull)
    | some last =>
      simp only [hshort, if_false]
      exact hwithin (not_lt.mp hfull)

/-- A page goes on exactly when it is not complete. -/
theorem PageEnd.complete_iff {codec : Codec τ ι} {c : Option (τ ×ₗ ι)}
    {rest : List (Document τ ι)} {limit : Nat} {page : BucketPage τ ι}
    (h : PageEnd codec rows c rest limit page) :
    page.complete = true ↔ page.following = none := by
  cases h <;> simp [pageAfter, pageWithin, BucketPage.following]

/-- A page of at least one row takes what it shows off what remains. -/
theorem PageEnd.takesOff (hids : (rows.map Document.id).Nodup) {codec : Codec τ ι}
    (read : Read τ ι) (hlimit : 1 ≤ read.query.limit) {c : Option (τ × ι)}
    {page : BucketPage τ ι}
    (h : PageEnd codec rows (c.map toLex) (remaining rows read c) read.query.limit page) :
    (page.following = none ∧ page.rows = remaining rows read c) ∨
      ∃ e ∈ rows, Below (c.map toLex) (position e) ∧
        page.following = some (encodeCursor codec (e.time, e.id)) ∧
        remaining rows read c = page.rows ++ remaining rows read (some (e.time, e.id)) := by
  have hdescending := remaining_descending hids read c
  have hfrom : ∀ e : Document τ ι, Below (c.map toLex) (position e) →
      (remaining rows read c).filter (fun d ↦ position d < position e) =
        remaining rows read (some (e.time, e.id)) := fun e he ↦ rest_rest he
  cases h with
  | @after last hlast =>
    have hmem := List.mem_of_getElem? hlast
    obtain ⟨hlisted, hbelow⟩ := mem_rest.mp hmem
    refine .inr ⟨last, (mem_listed.mp hlisted).1, hbelow, rfl, ?_⟩
    have hsplit := hdescending.take_split hlast
    rw [Nat.sub_add_cancel hlimit, hfrom last hbelow] at hsplit
    exact hsplit
  | @within e hrow hbelow =>
    refine .inr ⟨e, hrow, hbelow, rfl, ?_⟩
    have hsplit := hdescending.split (position e)
    rw [hfrom e hbelow] at hsplit
    exact hsplit
  | done => exact .inl ⟨rfl, rfl⟩

/-! ### All pages -/

/-- The page a request is answered with from a cursor on; none if it is refused. -/
def pageFrom (codec : Codec τ ι) (rows : List (Document τ ι)) (bucket : Bucket) (body : Body τ)
    (cursor : Option Cursor) : Option (BucketPage τ ι) :=
  (queryPage codec rows bucket { body with cursor := cursor }).toOption

/-- The position a cursor stands for. -/
def placeOf (codec : Codec τ ι) (cursor : Option Cursor) : Option (τ × ι) :=
  match parseCursor codec cursor with
  | .ok place => place
  | .error _ => none

/-- A cursor a page of these rows has given. -/
def Given (codec : Codec τ ι) (rows : List (Document τ ι)) (cursor : Option Cursor) : Prop :=
  cursor = none ∨ ∃ d ∈ rows, cursor = some (encodeCursor codec (d.time, d.id))

variable {codec : Codec τ ι} {bucket : Bucket} {body : Body τ} {query : Query τ ι}

omit [LinearOrder τ] [LinearOrder ι] in
theorem parseCursor_encodeCursor (h : codec.Canonical d.time) :
    parseCursor codec (some (encodeCursor codec (d.time, d.id))) = .ok (some (d.time, d.id)) := by
  simp [parseCursor, decodeCursor_encodeCursor h, Except.map]

omit [LinearOrder τ] [LinearOrder ι] in
/-- A cursor that was given is read as the position it stands for. -/
theorem parseCursor_given (htimes : ∀ d ∈ rows, codec.Canonical d.time)
    {cursor : Option Cursor} (h : Given codec rows cursor) :
    parseCursor codec cursor = .ok (placeOf codec cursor) := by
  rcases h with rfl | ⟨d, hd, rfl⟩
  · rfl
  · simp [placeOf, parseCursor_encodeCursor (htimes d hd)]

/-- A request answered without a cursor is answered from every cursor given. -/
theorem pageFrom_given (htimes : ∀ d ∈ rows, codec.Canonical d.time) (hnone : body.cursor = none)
    (hquery : parseQuery codec bucket body = .ok query) {cursor : Option Cursor}
    (h : Given codec rows cursor) :
    query = body.query bucket none ∧ pageFrom codec rows bucket body cursor =
      some (readPage codec rows
        ⟨bucket, { query with cursor := placeOf codec cursor }, query.plan⟩) := by
  obtain ⟨haccepted, first, hfirst, rfl⟩ := parseQuery_eq_ok.mp hquery
  rw [hnone] at hfirst
  obtain rfl := Except.ok.inj hfirst
  have hparse : parseQuery codec bucket { body with cursor := cursor } =
      .ok (body.query bucket (placeOf codec cursor)) :=
    parseQuery_eq_ok.mpr ⟨⟨haccepted.wanted, haccepted.shown, haccepted.groupBy,
      haccepted.range⟩, _, parseCursor_given htimes h, rfl⟩
  refine ⟨rfl, ?_⟩
  rw [pageFrom, queryPage, hparse]
  rfl

/-- The pages of a query come to an end and show its list; one is complete when it is the
last. -/
theorem exists_listing (hids : (rows.map Document.id).Nodup)
    (htimes : ∀ d ∈ rows, codec.Canonical d.time) (hnone : body.cursor = none)
    (hquery : parseQuery codec bucket body = .ok query) :
    ∃ pages, Follows (pageFrom codec rows bucket body) BucketPage.following none pages ∧
      pages.flatMap BucketPage.rows = listed rows (selectParts ⟨bucket, query, query.plan⟩) ∧
      ∀ page ∈ pages, page.complete = true ↔ page.following = none := by
  have hlimit : 1 ≤ query.limit := by
    obtain ⟨_, _, _, rfl⟩ := parseQuery_eq_ok.mp hquery
    exact body.limit_pos
  have hend : ∀ cursor page, Given codec rows cursor →
      pageFrom codec rows bucket body cursor = some page →
      PageEnd codec rows ((placeOf codec cursor).map toLex)
        (remaining rows ⟨bucket, query, query.plan⟩ (placeOf codec cursor)) query.limit page := by
    intro cursor page hgiven hpage
    rw [(pageFrom_given htimes hnone hquery hgiven).2] at hpage
    obtain rfl := Option.some.inj hpage
    exact readPage_end hids codec
      ⟨bucket, { query with cursor := placeOf codec cursor }, query.plan⟩ hlimit
  have hplace : ∀ e ∈ rows, placeOf codec (some (encodeCursor codec (e.time, e.id))) =
      some (e.time, e.id) := by
    intro e he
    rw [placeOf, parseCursor_encodeCursor (htimes e he)]
  have htakes : ∀ cursor, Given codec rows cursor →
      ∃ page, pageFrom codec rows bucket body cursor = some page ∧
        TakesOff page.rows page.following
          (fun c ↦ remaining rows ⟨bucket, query, query.plan⟩ (placeOf codec c))
          (fun c ↦ (rest position rows ((placeOf codec c).map toLex)).length)
          (Given codec rows) cursor := by
    intro cursor hgiven
    have hpage := (pageFrom_given htimes hnone hquery hgiven).2
    refine ⟨_, hpage, ?_⟩
    rcases (hend cursor _ hgiven hpage).takesOff hids ⟨bucket, query, query.plan⟩ hlimit with
      ⟨hlast, hrows⟩ | ⟨e, he, hbelow, hmore, hrows⟩
    · exact ⟨fun _ ↦ hrows, fun d hd ↦ nomatch hlast.symm.trans hd⟩
    · refine ⟨fun hnext ↦ (nomatch hnext.symm.trans hmore), fun d hd ↦ ?_⟩
      obtain rfl := Option.some.inj (hd.symm.trans hmore)
      rw [hplace e he]
      exact ⟨.inr ⟨e, he, rfl⟩, length_rest_lt he hbelow, hrows⟩
  obtain ⟨pages, hpages, hrows⟩ := exists_follows htakes (.inl rfl)
  refine ⟨pages, hpages, ?_, ?_⟩
  · rw [hrows]
    exact rest_none
  · refine hpages.forall_mem (Given codec rows) (fun cursor page hgiven hpage ↦ ?_)
      (.inl rfl)
    obtain ⟨_, hread, htake⟩ := htakes cursor hgiven
    obtain rfl := Option.some.inj (hread.symm.trans hpage)
    exact ⟨(hend cursor _ hgiven hpage).complete_iff, fun d hd ↦ (htake.more d hd).1⟩

/-- A query's filter under the plan chosen selects what is asked for. -/
theorem passes_selectParts {declared : Bucket} (hbucket : defineBucket declared = .ok bucket)
    (hquery : parseQuery codec bucket body = .ok query) (hd : HoldsDeclared bucket d) :
    passes (selectParts ⟨bucket, query, query.plan⟩) d = true ↔ Selected bucket query d := by
  obtain ⟨_, cursor, _, rfl⟩ := parseQuery_eq_ok.mp hquery
  obtain ⟨line, hplan, hfillable⟩ := choosePlan_eq (body.wanted.map Prod.fst) body.shown
    body.ref.isSome (lead_closed hbucket)
  exact passes_iff_selected hplan hfillable hd

/-- The list of a query, without a plan: the rows it asks for, newest first. -/
def selectedList (rows : List (Document τ ι)) (bucket : Bucket) (query : Query τ ι) :
    List (Document τ ι) :=
  (rows.filter fun d ↦ Selected bucket query d).mergeSort newerFirst

theorem mem_selectedList :
    d ∈ selectedList rows bucket query ↔ d ∈ rows ∧ Selected bucket query d := by
  simp [selectedList]

theorem length_selectedList : (selectedList rows bucket query).length =
    rows.countP fun d ↦ Selected bucket query d := by
  rw [selectedList, List.length_mergeSort, List.countP_eq_length_filter]

/-- The pages read from a request on without its cursor show its list. -/
theorem exists_selection {declared : Bucket} (hbucket : defineBucket declared = .ok bucket)
    (hids : (rows.map Document.id).Nodup) (htimes : ∀ d ∈ rows, codec.Canonical d.time)
    (hrows : ∀ d ∈ rows, HoldsDeclared bucket d)
    (hquery : parseQuery codec bucket body = .ok query) :
    ∃ pages, Follows (pageFrom codec rows bucket body) BucketPage.following none pages ∧
      pages.flatMap BucketPage.rows = selectedList rows bucket query ∧
      Descending position (selectedList rows bucket query) ∧
      ∀ page ∈ pages, page.complete = true ↔ page.following = none := by
  obtain ⟨haccepted, cursor, hcursor, rfl⟩ := parseQuery_eq_ok.mp hquery
  have hfirst : parseQuery codec bucket { body with cursor := none } =
      .ok (body.query bucket none) :=
    parseQuery_eq_ok.mpr ⟨⟨haccepted.wanted, haccepted.shown, haccepted.groupBy,
      haccepted.range⟩, none, rfl, rfl⟩
  have hlist : listed rows (selectParts ⟨bucket, body.query bucket none,
      (body.query bucket none : Query τ ι).plan⟩) =
      selectedList rows bucket (body.query bucket cursor) := by
    unfold listed selectedList
    congr 1
    refine List.filter_congr fun d hd ↦ ?_
    rw [Bool.eq_iff_iff, decide_eq_true_eq]
    exact passes_selectParts hbucket hquery (hrows d hd)
  obtain ⟨pages, hpages, hlisted, hcomplete⟩ := exists_listing hids htimes rfl hfirst
  refine ⟨pages, hpages, hlisted.trans hlist, ?_, hcomplete⟩
  rw [← hlist]
  exact listed_descending hids _

/-! ### A bucket and its rows -/

/-- A bucket of events that hides those given up. -/
def eventsBucket : Bucket where
  id := "gas.events"
  path := some "events"
  facts := [("status", ⟨.closed [⟨"DONE", false⟩, ⟨"DEAD", true⟩], some "dead", none,
      some "status"⟩),
    ("type", ⟨.closed [⟨"OFFER", false⟩, ⟨"CLAIM", false⟩], none, none, some "type"⟩),
    ("grantCode", ⟨.stored, none, none, some "grant"⟩)]
  indexes := [["status"], ["grantCode", "status"]]
  groupings := ["status", "grantCode"]

/-- Two moments and four ids, as a cursor writes them. -/
def eventsCodec : Codec (Fin 2) (Fin 4) where
  toIso t := if t = 0 then "2026-01-01T00:00:00.000Z" else "2026-01-02T00:00:00.000Z"
  toStoredTime text :=
    if text = "2026-01-01T00:00:00.000Z" then some 0
    else if text = "2026-01-02T00:00:00.000Z" then some 1 else none
  idText i := "69565f00000000000000000" ++ toString i.val
  createFromHexString text :=
    (List.finRange 4).find? fun i ↦ text = "69565f00000000000000000" ++ toString i.val
  createFromHexString_idText := by decide
  idText_ne := by decide

/-- An event of a status and a type. -/
def event (id : Fin 4) (time : Fin 2) (status type : Option String) :
    Document (Fin 2) (Fin 4) where
  id := id
  time := time
  refs := []
  fact name := if name = "status" then status else if name = "type" then type else none

/-- Three events of one moment, one without a status and one hidden, and an earlier one. -/
def events : List (Document (Fin 2) (Fin 4)) :=
  [event 0 0 (some "DONE") (some "OFFER"), event 1 1 none (some "OFFER"),
    event 2 1 (some "DEAD") (some "OFFER"), event 3 1 (some "DONE") (some "OFFER")]

/-- The offers not given up, one row a page: the plan fills the status and tests the type. -/
def offers : Body (Fin 2) where
  wanted := [("type", "OFFER")]
  shown := []
  ref := none
  since := none
  until_ := none
  cursor := none
  limit := 1
  groupBy := []
  limit_pos := by decide
  limit_le := by decide

/-- What they are parsed as. -/
def offersQuery : Query (Fin 2) (Fin 4) := offers.query eventsBucket none

/-- Following `next` or `keepLooking` from page to page comes to an end and lists every row the
query asks for once, newest first; a page that reports complete is one after which no row
remains, and the last one does. -/
theorem pages_list_every_row_once {declared : Bucket}
    (hbucket : defineBucket declared = .ok bucket) (hids : (rows.map Document.id).Nodup)
    (htimes : ∀ d ∈ rows, codec.Canonical d.time) (hrows : ∀ d ∈ rows, HoldsDeclared bucket d)
    (hquery : parseQuery codec bucket body = .ok query) :
    ∃ pages, Follows (pageFrom codec rows bucket body) BucketPage.following none pages ∧
      Descending position (pages.flatMap BucketPage.rows) ∧
      (∀ d, d ∈ pages.flatMap BucketPage.rows ↔ d ∈ rows ∧ Selected bucket query d) ∧
      (∀ i page, pages[i]? = some page → page.complete = true →
        (pages.take (i + 1)).flatMap BucketPage.rows = pages.flatMap BucketPage.rows) ∧
      ∀ page ∈ pages.getLast?, page.complete = true := by
  obtain ⟨pages, hpages, hlist, hdescending, hcomplete⟩ :=
    exists_selection hbucket hids htimes hrows hquery
  refine ⟨pages, hpages, hlist ▸ hdescending, fun d ↦ hlist ▸ mem_selectedList,
    fun i page hi hpage ↦ ?_, fun page hlast ↦ ?_⟩
  · have hlength := hpages.length_of_next_eq_none hi
      ((hcomplete page (List.mem_of_getElem? hi)).mp hpage)
    rw [hlength, List.take_length]
  · exact (hcomplete page (List.mem_of_getLast? hlast)).mpr (hpages.next_getLast hlast)

/-- The offers are listed, the hidden one left out. -/
theorem pages_list_every_row_once_offers :
    ∃ pages, Follows (pageFrom eventsCodec events eventsBucket offers) BucketPage.following none
        pages ∧
      Descending position (pages.flatMap BucketPage.rows) ∧
      ∀ d, d ∈ pages.flatMap BucketPage.rows ↔
        d ∈ events ∧ Selected eventsBucket offersQuery d := by
  obtain ⟨pages, hpages, hdescending, hmem, _⟩ := pages_list_every_row_once
    (rfl : defineBucket eventsBucket = .ok eventsBucket) (by decide : (events.map _).Nodup)
    (by decide : ∀ d ∈ events, eventsCodec.Canonical d.time) (by decide)
    (rfl : parseQuery eventsCodec eventsBucket offers = .ok offersQuery)
  exact ⟨pages, hpages, hdescending, hmem⟩

/-- On every line a plan may run on, and on the one chosen, the filter selects exactly the rows
the query asks for; so do all the pages together. -/
theorem plans_select_reference {declared : Bucket}
    (hbucket : defineBucket declared = .ok bucket) (hids : (rows.map Document.id).Nodup)
    (htimes : ∀ d ∈ rows, codec.Canonical d.time) (hrows : ∀ d ∈ rows, HoldsDeclared bucket d)
    (hquery : parseQuery codec bucket body = .ok query) :
    (∀ line, Fillable bucket query.asked line → ∀ d ∈ rows,
      passes (selectParts ⟨bucket, query, planFor bucket line query.asked
        (neededFacts bucket query.asked query.shown)⟩) d = true ↔ Selected bucket query d) ∧
    (∀ d ∈ rows, passes (selectParts ⟨bucket, query, query.plan⟩) d = true ↔
      Selected bucket query d) ∧
    ∃ pages, Follows (pageFrom codec rows bucket body) BucketPage.following none pages ∧
      ∀ d, d ∈ pages.flatMap BucketPage.rows ↔ d ∈ rows ∧ Selected bucket query d := by
  refine ⟨fun line hline d hd ↦ passes_iff_selected rfl hline (hrows d hd),
    fun d hd ↦ passes_selectParts hbucket hquery (hrows d hd), ?_⟩
  obtain ⟨pages, hpages, hlist, _⟩ := exists_selection hbucket hids htimes hrows hquery
  exact ⟨pages, hpages, fun d ↦ hlist ▸ mem_selectedList⟩

/-- The offers of the chosen plan, which fills the status, are those asked for. -/
theorem plans_select_reference_offers :
    ∃ pages, Follows (pageFrom eventsCodec events eventsBucket offers) BucketPage.following none
        pages ∧
      ∀ d, d ∈ pages.flatMap BucketPage.rows ↔
        d ∈ events ∧ Selected eventsBucket offersQuery d :=
  (plans_select_reference (rfl : defineBucket eventsBucket = .ok eventsBucket)
    (by decide : (events.map _).Nodup)
    (by decide : ∀ d ∈ events, eventsCodec.Canonical d.time) (by decide)
    (rfl : parseQuery eventsCodec eventsBucket offers = .ok offersQuery)).2.2

end FgGas.Buckets
