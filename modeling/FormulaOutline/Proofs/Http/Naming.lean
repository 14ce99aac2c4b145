import FormulaOutline.Proofs.Http.Below
import FormulaOutline.Provider.Service

/-!
# What is asked for by name

A service keeps places or flights in a collection, each under its name. A query for one of them is put
as a path of two parts below the path of the service: the collection, and the name as it is written in a
path. The second part stays one part, whatever the name, and is read as the name. If the name is one or
two points, though, this part says where to go, and another path is sent.

* `Query.named?`: the collection and the name that a query is about.
* `Client.Serves`: the parts of the path of a service.
* `path_of_request?`: the path that is sent.
* `Query.sendsOnly_fetch`: all that is sent for a query is one and the same request.
* `one_part_iff`: a name is asked for where it belongs unless it is one or two points, and then nothing
  else is asked for there.
-/

namespace FormulaOutline

open Http Text

/-! ## Paths -/

namespace Http

variable {a : Address} {parts parts' dir : List (List Char)} {s : List Char}

/-- Parts of a path as they are sent. -/
def pathText (parts : List (List Char)) : List Char := parts.flatMap ('/' :: ·)

/-- The path of a request, without the query. -/
def Request.path (r : Request) : List Char := r.target.toList.takeWhile (· != '?')

theorem splitOnP_pathText (hs : ∀ c ∈ s, Address.isSlash c = false)
    (h : ∀ part ∈ parts, ∀ c ∈ part, Address.isSlash c = false) :
    (s ++ pathText parts).splitOnP Address.isSlash = s :: parts := by
  induction parts generalizing s with
  | nil => rw [pathText, List.flatMap_nil, List.append_nil, List.splitOnP_eq_singleton hs]
  | cons part parts ih =>
    rw [List.forall_mem_cons] at h
    rw [pathText, List.flatMap_cons, ← pathText, List.cons_append,
      List.splitOnP_append_cons_of_forall_mem hs _ (by rfl), ih h.1 h.2]

theorem pathText_injective (h : ∀ part ∈ parts, ∀ c ∈ part, Address.isSlash c = false)
    (h' : ∀ part ∈ parts', ∀ c ∈ part, Address.isSlash c = false)
    (hSame : pathText parts = pathText parts') : parts = parts' := by
  have hSplit := congrArg (List.splitOnP Address.isSlash) hSame
  rw [← List.nil_append (pathText parts), ← List.nil_append (pathText parts'),
    splitOnP_pathText (List.forall_mem_nil _) h, splitOnP_pathText (List.forall_mem_nil _) h'] at hSplit
  exact (List.cons.inj hSplit).2

theorem path_target (h : ∀ part ∈ a.path, '?' ∉ part) (auth : Option String) :
    Request.path ⟨a.target, auth⟩ = pathText a.path := by
  have hPath : ∀ c ∈ pathText a.path, (c != '?') = true := by
    intro c hc
    obtain ⟨part, hPart, hc⟩ := List.mem_flatMap.mp hc
    rw [bne_iff_ne]
    rintro rfl
    rcases List.mem_cons.mp hc with hSlash | hc
    · cases hSlash
    · exact h part hPart hc
  rw [Request.path, Address.target, String.toList_ofList, ← pathText, List.takeWhile_append_of_pos hPath]
  cases a.query with
  | none => rw [List.takeWhile_nil, List.append_nil]
  | some q => rw [List.takeWhile_cons_of_neg (by decide), List.append_nil]

/-- Question marks do not stand for themselves in the path of an address. -/
theorem not_mem_path (h : Address.read? s = some a) : ∀ part ∈ a.path, '?' ∉ part := by
  obtain ⟨rest, -, h⟩ := Option.bind_eq_some_iff.mp h
  dsimp only at h
  split at h
  · obtain rfl := Option.some.inj h
    intro part hPart hMark
    obtain ⟨raw, -, rfl⟩ := List.mem_map.mp hPart
    rcases mem_percentEncode hMark with hKept | hKept | hKept <;> cases hKept
  · cases h

end Http

/-! ## Names in a service -/

/-- The collection of its service that a query is about, and the name in it. -/
def Query.named? : Query → Option (String × String)
  | .place id => some ("places", id)
  | .flight number _ => some ("flights", number)
  | .route .. | .weather .. => none

/-- The parts of the path of a service, in whose address neither a query nor a fragment begins. -/
structure Http.Client.Serves (c : Client) (dir : List (List Char)) : Prop where
  noQuery : Address.HasNoQuery c.baseUrl.toList
  read : Address.read? (c.baseUrl.toList ++ ['/']) = some ⟨dir ++ [[]], none⟩

variable {c : Client} {dir : List (List Char)} {q : Query} {collection name profile : String}
  {auth : Option String} {r : Request}

theorem toList_path_of_named? (h : q.named? = some (collection, name)) (profile : String) :
    IsOrdinary collection.toList ∧
      (q.path profile).toList = encodeSegment collection.toList ++ '/' :: encodeSegment name.toList := by
  have hName : ∀ s : String, (pathSegment s).toList = encodeSegment s.toList := fun _ =>
    String.toList_ofList
  cases q with
  | place id =>
    cases h
    rw [Query.path, String.toList_append, hName]
    exact ⟨⟨by decide, by decide, by decide⟩, rfl⟩
  | flight number date =>
    cases h
    rw [Query.path, String.toList_append, hName]
    exact ⟨⟨by decide, by decide, by decide⟩, rfl⟩
  | route | weather => cases h

/-- The request for a name goes to where the collection and the name lead to. -/
theorem request?_of_named? (hc : c.Serves dir) (hq : q.named? = some (collection, name))
    (profile : String) :
    c.request? (q.path profile) q.parameters = c.authorization?.map fun auth =>
      ⟨((⟨dir ++ Address.reached collection.toList name.toList, none⟩ : Address).withPairs
        q.parameters).target, auth⟩ := by
  obtain ⟨hCollection, hPath⟩ := toList_path_of_named? hq profile
  -- The first part begins with no slash, so none is taken off.
  have hHead : (q.path profile).toList.dropWhile (· == '/') = (q.path profile).toList := by
    obtain ⟨first, more, hFirst⟩ := List.exists_cons_of_ne_nil
      (isOrdinary_encodeSegment_iff.mpr hCollection).ne_nil
    have hSlash : ¬ (first == '/') = true := by
      rw [beq_iff_eq]
      rintro rfl
      have hMem : '/' ∈ encodeSegment collection.toList := by
        rw [hFirst]
        exact List.mem_cons_self
      cases (Address.isBelow_of_escaped (escaped_encodeSegment _) hMem).2
    rw [hPath, hFirst, List.cons_append]
    exact List.dropWhile_cons_of_neg (p := (· == '/')) hSlash
  have hText : (c.baseUrl ++ "/" ++ String.ofList (q.path profile).toList).toList = c.baseUrl.toList ++
      '/' :: (encodeSegment collection.toList ++ '/' :: encodeSegment name.toList) := by
    simp only [String.toList_append, String.toList_ofList, hPath, List.append_assoc]
    rfl
  have hRead := Address.read?_named hc.noQuery hc.read hCollection name.toList
  rw [Client.request?, hHead, hText, hRead]
  cases c.authorization? <;> rfl

theorem path_of_request? (hc : c.Serves dir) (hq : q.named? = some (collection, name))
    (h : c.request? (q.path profile) q.parameters = some r) :
    r.path = pathText (dir ++ Address.reached collection.toList name.toList) := by
  rw [request?_of_named? hc hq] at h
  obtain ⟨auth, -, rfl⟩ := Option.map_eq_some_iff.mp h
  refine path_target (fun part hPart hMark => ?_) auth
  rcases List.mem_append.mp hPart with hPart | hPart
  · exact not_mem_path hc.read part (List.mem_append_left _ hPart) hMark
  · cases (Address.isBelow_of_escaped (Address.mem_reached hPart) hMark).1.1

/-! ## What is sent -/

/-- What sending and pausing preserve holds after all attempts. -/
theorem Http.retrying_preserves {σ : Type} {P : σ → Prop} {send : σ → Outcome × σ}
    {pause : Nat → σ → σ} (hSend : ∀ s, P s → P (send s).2) (hPause : ∀ ms s, P s → P (pause ms s))
    (retries : Nat) {s : σ} (h : P s) : P (retrying send pause retries s).2 := by
  induction retries generalizing s with
  | zero => exact hSend s h
  | succ retries ih =>
    have hSent := hSend s h
    rw [retrying]
    split
    · next ms s' hStep =>
      rw [hStep] at hSent
      split
      · exact ih (hPause ms s' hSent)
      · exact hSent
    · next hStep => rwa [hStep] at hSent
    · next hStep => rwa [hStep] at hSent

/-- From one state of a line to another, nothing has been sent but a request, any number of times. -/
def Http.Line.SendsOnly (l : Line) (r : Request) (l' : Line) : Prop :=
  ∃ n, l'.requests = l.requests ++ List.replicate n r

theorem Http.Client.sendsOnly_sendOnce {l l' : Line} (h : l.SendsOnly r l') :
    l.SendsOnly r (c.sendOnce (some r) l').2 := by
  obtain ⟨n, hn⟩ := h
  cases hReplies : l'.keepPace.replies with
  | nil =>
    simp only [sendOnce, hReplies]
    exact ⟨n, hn⟩
  | cons reply replies =>
    simp only [sendOnce, hReplies]
    refine ⟨n + 1, ?_⟩
    rw [List.replicate_succ', ← List.append_assoc, ← hn]
    rfl

theorem Http.Client.sendsOnly_get {α : Type} {path : String} {query : List (String × String)}
    (h : c.request? path query = some r) (d : Json.Decoder α) (l : Line) :
    l.SendsOnly r (c.get path query d l).2 := by
  have hPause : ∀ (ms : Nat) (l' : Line), l.SendsOnly r l' → l.SendsOnly r (l'.pass ms) :=
    fun _ _ h => h
  have hAll := retrying_preserves (fun _ => sendsOnly_sendOnce (c := c)) hPause c.retries
    (⟨0, (List.append_nil _).symm⟩ : l.SendsOnly r l)
  rw [get, h]
  exact hAll

/-- All that is sent for a query is one and the same request. -/
theorem Query.sendsOnly_fetch (h : c.request? (q.path profile) q.parameters = some r) (l : Line) :
    l.SendsOnly r (q.fetch c profile l).2 := by
  cases q with
  | route start stop => exact Client.sendsOnly_get h RouteResponse.ofJson? l
  | place id => exact Client.sendsOnly_get h Place.ofJson? l
  | weather date location => exact Client.sendsOnly_get h Forecast.ofJson? l
  | flight number date => exact Client.sendsOnly_get h FlightStatus.ofJson? l

/-! ## Names that stay where they are -/

/-- Unless a name is one or two points, it leads to itself in its collection. -/
theorem reached_eq_iff {collection name : List Char} :
    Address.reached collection name = [encodeSegment collection, encodeSegment name] ↔
      name ≠ ['.'] ∧ name ≠ ['.', '.'] := by
  constructor
  · intro h
    constructor
    · rintro rfl
      have hHere : [] = ['.'] := (List.cons.inj (List.cons.inj h).2).1
      cases hHere
    · rintro rfl
      have hUp : [] = [['.', '.']] := (List.cons.inj h).2
      cases hUp
  · rintro ⟨hPoint, hPoints⟩
    rw [Address.reached, if_neg hPoint, if_neg hPoints]

/-- Nothing but an ordinary name itself leads to where it is. -/
theorem eq_of_reached {collection name collection' name' : List Char} (hName : IsOrdinary name)
    (h : Address.reached collection' name' = Address.reached collection name) :
    collection' = collection ∧ name' = name := by
  rw [reached_eq_iff.mpr ⟨hName.ne_point, hName.ne_points⟩, Address.reached] at h
  have hWritten := (isOrdinary_encodeSegment_iff.mpr hName).ne_nil
  split_ifs at h
  · exact absurd (List.cons.inj (List.cons.inj h).2).1.symm hWritten
  · cases (List.cons.inj h).2
  · obtain ⟨hCollection, hRest⟩ := List.cons.inj h
    exact ⟨encodeSegment_injective hCollection, encodeSegment_injective (List.cons.inj hRest).1⟩

theorem pathText_reached_iff {collection name : List Char} {parts : List (List Char)}
    (h : ∀ part ∈ parts, Escaped part) :
    pathText (dir ++ Address.reached collection name) = pathText (dir ++ parts) ↔
      Address.reached collection name = parts := by
  have hPlain : ∀ {part : List Char}, Escaped part → ∀ c ∈ part, Address.isSlash c = false :=
    fun hPart _ hc => (Address.isBelow_of_escaped hPart hc).2
  refine ⟨fun hSame => ?_, fun hSame => by rw [hSame]⟩
  rw [pathText, pathText, List.flatMap_append, List.flatMap_append] at hSame
  exact pathText_injective (fun part hPart => hPlain (Address.mem_reached hPart))
    (fun part hPart => hPlain (h part hPart)) (List.append_cancel_left hSame)

/-- A name that is written as a part of a path is read back from it, has no other characters than
unreserved ones and escapes, and is an ordinary part unless it is empty, one point or two points. The
requests for a name of its collection are all the same one, and go to the collection and the written name
below the path of the service unless the name is one or two points. To an ordinary name no other one has
the same path. -/
theorem one_part_iff (name : String) :
    decodeSegment? (encodeSegment name.toList) = some name.toList ∧
      Escaped (encodeSegment name.toList) ∧
      (IsOrdinary (encodeSegment name.toList) ↔ IsOrdinary name.toList) ∧
      ∀ (c : Client) (dir : List (List Char)) (auth : Option String) (q : Query)
        (collection profile : String), c.Serves dir → c.authorization? = some auth →
        q.named? = some (collection, name) →
        ∃ r, c.request? (q.path profile) q.parameters = some r ∧
          (∀ l : Line, l.SendsOnly r (q.fetch c profile l).2) ∧
          (r.path = pathText (dir ++ [encodeSegment collection.toList, encodeSegment name.toList]) ↔
            name.toList ≠ ['.'] ∧ name.toList ≠ ['.', '.']) ∧
          (IsOrdinary name.toList → ∀ (q' : Query) (collection' name' profile' : String) (r' : Request),
            q'.named? = some (collection', name') →
            c.request? (q'.path profile') q'.parameters = some r' → r'.path = r.path →
            collection' = collection ∧ name' = name) := by
  refine ⟨decodeSegment?_encodeSegment _, escaped_encodeSegment _, isOrdinary_encodeSegment_iff, ?_⟩
  intro c dir auth q collection profile hc hKey hq
  have hRequest := request?_of_named? hc hq profile
  rw [hKey, Option.map_some] at hRequest
  refine ⟨_, hRequest, Query.sendsOnly_fetch hRequest, ?_, ?_⟩
  · rw [path_of_request? hc hq hRequest, pathText_reached_iff, reached_eq_iff]
    intro part hPart
    rcases List.mem_cons.mp hPart with rfl | hPart
    · exact escaped_encodeSegment _
    · rw [List.mem_singleton.mp hPart]
      exact escaped_encodeSegment _
  · intro hName q' collection' name' profile' r' hq' hRequest' hSame
    rw [path_of_request? hc hq hRequest, path_of_request? hc hq' hRequest',
      pathText_reached_iff fun _ => Address.mem_reached] at hSame
    obtain ⟨hCollection, hEntry⟩ := eq_of_reached hName hSame
    exact ⟨String.toList_inj.mp hCollection, String.toList_inj.mp hEntry⟩

/-- A service of places, with a path of its own. -/
def harbours : Client := ⟨"places", "http://localhost/api", none, .perMinute 60, 1⟩

theorem harbours_serves : harbours.Serves ["api".toList] where
  noQuery := by
    have hAll : harbours.baseUrl.toList.all (fun c => !Address.endsPath c) = true := by rfl
    intro c hc
    simpa using List.all_eq_true.mp hAll c hc
  read := by rfl

/-- A name that goes up and has a slash and a letter of two bytes stays one part. -/
theorem one_part_iff_quay : harbours.Serves ["api".toList] ∧ harbours.authorization? = some none ∧
    ∃ r, harbours.request? ((Query.place "../é").path "") (Query.place "../é").parameters = some r ∧
      r.path = "/api/places/..%2F%C3%A9".toList ∧
      ∀ (q : Query) (collection name profile : String) (r' : Request),
        q.named? = some (collection, name) →
        harbours.request? (q.path profile) q.parameters = some r' → r'.path = r.path →
        collection = "places" ∧ name = "../é" := by
  have hName : IsOrdinary "../é".toList := ⟨by decide, by decide, by decide⟩
  obtain ⟨-, -, -, hRequests⟩ := one_part_iff "../é"
  obtain ⟨r, hRequest, -, hPath, hAlone⟩ := hRequests harbours ["api".toList] none (.place "../é")
    "places" "" harbours_serves rfl rfl
  refine ⟨harbours_serves, rfl, r, hRequest, ?_, hAlone hName⟩
  rw [hPath.mpr ⟨hName.ne_point, hName.ne_points⟩]
  rfl

/-- A name of two points is no ordinary part, and is asked for at the path of the service itself. -/
theorem one_part_not_points :
    (¬ ∀ s : List Char, s ≠ [] → decodeSegment? (encodeSegment s) = some s ∧
        Escaped (encodeSegment s) ∧ IsOrdinary (encodeSegment s)) ∧
      harbours.request? ((Query.place "..").path "") (Query.place "..").parameters =
        some ⟨"/api/", none⟩ := by
  refine ⟨fun hAll => ?_, by rfl⟩
  have hPoints := (hAll ['.', '.'] (List.cons_ne_nil _ _)).2.2
  exact hPoints.ne_points (by decide)

end FormulaOutline
