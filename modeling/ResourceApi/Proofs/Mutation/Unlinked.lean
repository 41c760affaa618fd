import ResourceApi.Proofs.Mutation.Synced

/-!
What a sync asks about the records that it unlinks. Rows of a join table hold the keys by which records are linked, while
records are found, and asked about, by the keys of their resource: the two have to be one column.
-/

namespace ResourceApi.Mutation

open Job

section Requests

variable {context : Context} {owner target : Resource} {link : PivotLink} {relation : Relation} {nodes : List Node}
  {node : Node} {key : Json} {work : Work}

/-- Syncing the records of one record where these are linked by the key of their resource. It is asked, and allowed, to
unlink just the records whose rows go, each once, and no other record loses a row. If all rows of the record lead to records
and the nodes name records that are not deleted, none is missing in the end, whatever is allowed. -/
theorem unlinks_of_execute {schema : Schema} {declarations : List ResourceDeclaration}
    (built : Graph.build schema declarations = .ok context.graph) (declared : owner ∈ context.graph.resources)
    (own : relation.link = .pivot link) (leads : context.graph.target relation = .ok target)
    (named : link.targetKey = target.key)
    (kept : Kept context.graph work.database) (joined : work.database.Keeps link.table)
    (matched : link.Matched owner target work.database)
    (related : ∀ row ∈ work.database.rows link.table.name, link.keyType.Holds (row.cell link.relatedKey))
    (known : ∀ row ∈ work.database.rows owner.table.name, owner.isFor key false row = true →
      row.cell link.localKey ≠ .null)
    (none : work.records = []) (through : Through owner relation (.mk .sync nodes) key node)
    (free : ∀ node ∈ nodes, link.Free node.pivot) :
    (∀ result after, (execute context owner [node]).runOn work = (.ok result, after) →
      ∃ parent gone, (work.database.rows owner.table.name).filter (owner.isFor key false) = [parent] ∧
        gone = link.unlinked owner target parent (work.database.rows target.table.name)
          (work.database.rows link.table.name) (after.database.rows link.table.name) ∧
        (PolicyCall.about .detach after.calls).Perm (PolicyCall.about .detach work.calls ++
          gone.flatMap fun record => context.questions .detach target (some (target.keyOf record))) ∧
        (∀ record ∈ gone, context.allows .detach target (some (target.keyOf record)) = true) ∧
        ∀ record ∈ work.database.rows target.table.name, record ∉ gone →
          (link.between owner target parent record (work.database.rows link.table.name)).length ≤
            (link.between owner target parent record (after.database.rows link.table.name)).length) ∧
    ((∃ parent ∈ work.database.rows owner.table.name, owner.isFor key false parent = true) →
      (∀ parent ∈ work.database.rows owner.table.name, owner.isFor key false parent = true →
        ∀ row ∈ work.database.rows link.table.name, link.belongs owner target parent row = true →
          ∃ record ∈ work.database.rows target.table.name, link.reaches target record row = true) →
      (∀ node ∈ nodes, ∃ record ∈ work.database.rows target.table.name,
        target.isFor ((Members.get? node.attributes target.key).getD .null) false record = true) →
      ∀ failure after, (execute context owner [node]).runOn work = (.error failure, after) → ¬failure.IsNotFound) := by
  have sound := Graph.sound_of_build built owner declared
  have placed := (sound.relations relation (Resource.mem_of_relation? through.known).1).placed
  have below : relation.kind.linkPlace ≠ .parent := by simp [← placed, own, Link.place]
  have declaredToo := Graph.mem_of_target leads
  have keeps := kept.keeps target declaredToo
  have readable (parent : Row) : link.Readable owner target parent (work.database.rows link.table.name) :=
    ⟨joined.full, fun row there _ _ read => Table.isKey_of_ofCell joined there rfl (related row there) read⟩
  have comes := execute_sync own leads below matched (kept.keeps owner declared) (kept.keyed owner declared) keeps
    (kept.keyed target declaredToo) none known (fun parent _ _ => readable parent) through free
  constructor
  · intro result after ran
    obtain ⟨parent, asked, requested, linked, ended, gone, allowed, about, perm⟩ := comes.1 result after ran
    have perm := perm named
    obtain ⟨now, progress, left⟩ := ended.rows
    refine ⟨parent, _, requested.alone, rfl, ?_, fun record listed => allowed record (perm.mem_iff.2 listed), ?_⟩
    · rw [about]
      exact (List.Perm.refl _).append (perm.flatMap_right _)
    · intro record inside stays
      have stored := Table.isStored_ref keeps.nodup (keeps.full record inside) link.targetKey
      rw [← matched.typed.related] at stored
      by_cases still : link.between owner target parent record (after.database.rows link.table.name) = []
      · have before : link.between owner target parent record (work.database.rows link.table.name) = [] := by
          by_contra some
          exact stays (List.mem_filter.2 ⟨inside, by simp [still, some]⟩)
        rw [before]
        exact Nat.zero_le _
      · exact progress.length_between_le matched.nodup linked matched.typed ended.asks left stored still
  · rintro ⟨owned, there, is⟩ refers live failure after ran notFound
    have nonempty {rows : List Row} {p : Row → Bool} {row : Row} (inside : row ∈ rows) (holds : p row = true) :
        rows.filter p ≠ [] := List.ne_nil_of_mem (List.mem_filter.2 ⟨inside, holds⟩)
    rcases comes.2 failure after ran notFound with missing | ⟨parent, alone, ⟨node, listed, missing⟩ | dangling⟩
    · exact nonempty there is missing
    · obtain ⟨record, inside, names⟩ := live node listed
      exact nonempty inside names missing
    · obtain ⟨row, inside, mine, unreached⟩ := dangling named
      obtain ⟨present, isToo⟩ := List.mem_filter.1 (alone ▸ List.mem_singleton_self parent)
      obtain ⟨record, known, reached⟩ := refers parent present isToo row inside mine
      rw [unreached record known] at reached
      cases reached

end Requests

/-! ## Tags that are unlinked -/

namespace Tags

/-- Tags have a policy, which lets everything be done with them. -/
def asking (key : String) : Context := { graph := graph key, access := { policies := [("Tag", {})] } }

/-- The tag of a post that is not named is unlinked, once that was asked about it, and nothing is missing. -/
theorem unlinks_of_unnamed :
    (∃ result after, (execute (asking "slug") (post "slug") [request nodes]).runOn { database := database } =
        (.ok result, after) ∧
      (PolicyCall.about .detach after.calls).Perm [⟨"Tag", .detach, some (.text "y")⟩]) ∧
    ∀ failure after, (execute (asking "slug") (post "slug") [request nodes]).runOn { database := database } =
      (.error failure, after) → ¬failure.IsNotFound := by
  obtain ⟨unlinks, missesNone⟩ := @unlinks_of_execute (asking "slug") (post "slug") tag (link "slug") (through "slug") nodes
    (request nodes) (.text "a") { database := database } schema (declarations "slug") graph_of_declarations
    List.mem_cons_self rfl rfl rfl kept joined matched related (by decide) rfl through_request free
  refine ⟨?_, missesNone (by decide) (by decide) (by decide)⟩
  rcases ran : (execute (asking "slug") (post "slug") [request nodes]).runOn { database := database } with
    ⟨failure | result, after⟩
  · have succeeds : ((execute (asking "slug") (post "slug") [request nodes]).runOn
        { database := database }).1.toBool = true := by
      set_option maxRecDepth 8000 in cbv
    rw [ran] at succeeds
    cases succeeds
  · refine ⟨result, after, rfl, ?_⟩
    have rows : ((execute (asking "slug") (post "slug") [request nodes]).runOn { database := database }).2.database.rows
        "post_tag" = [noted "a" "x" "new", noted "b" "x" "other", noted "a" "z" "last"] := by
      set_option maxRecDepth 8000 in cbv
    rw [ran] at rows
    obtain ⟨parent, gone, alone, is, asked, -⟩ := unlinks result after ran
    obtain rfl : [("slug", .text "a")] = parent := List.singleton_inj.1 alone
    rw [show (link "slug").table.name = "post_tag" from rfl, rows] at is
    obtain rfl : gone = [coded "y" .null] := is.trans (by decide)
    exact asked

/-- Two tags; a post has the first of them, by its code. -/
def codes : Database :=
  ⟨[⟨posts, [[("slug", .text "a")]]⟩, ⟨tags, [coded "x" (.text "s"), coded "y" (.text "t")]⟩,
    ⟨tagged, [noted "a" "s" "old"]⟩]⟩

/-- Where tags are linked by their codes, the tag that is to be unlinked is looked for by another column, and missing: though
it is there, the row leads to it, the tag that is named is there as well, and everything is allowed. -/
theorem linked_but_not_found :
    Graph.build schema (declarations "code") = .ok (graph "code") ∧
    (link "code").belongs (post "code") tag [("slug", .text "a")] (noted "a" "s" "old") = true ∧
    (link "code").reaches tag (coded "x" (.text "s")) (noted "a" "s" "old") = true ∧
    tag.isFor (.text "y") false (coded "y" (.text "t")) = true ∧
    (∀ action key, (asking "code").allows action tag key = true) ∧
    ((execute (asking "code") (post "code") [request [named "y" "new"]]).runOn { database := codes }).1 =
      .error (.notFound "Tag" (.text "s")) := by
  refine ⟨rfl, by decide, by decide, by decide, ?_, ?_⟩
  · intro action key
    cases key <;> rfl
  · set_option maxRecDepth 8000 in cbv

end Tags

end ResourceApi.Mutation
