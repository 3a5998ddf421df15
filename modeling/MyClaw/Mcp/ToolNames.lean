import MyClaw.Mcp.Registry

set_option autoImplicit false

/-!
# Where the names of MCP tools lead

The name of a tool in the index is made of the name of its server, a separator and its own name, and
taken apart at the first separator again.  Where a server has a separator in its name, or half of
one at its end, or a tool has one in its name, the parts are not told: two servers may have tools of
one name, of which the index keeps the last, and a name that is left bare stands for nothing or for
another tool.  If no name has any of these, every name leads to the tool it was advertised for.

## Main definitions

* `connected`, `advertised` — the servers that connect, and the entries of their tools.
* `LeadsToTools` — names lead to the tools they were advertised for.
* `CutsOff`, `NamesApart` — the condition on the names.

## Main results

* `connectAll_eq` — what `connect_all` makes.
* `suffix_prefixedName_iff` — when the suffix of a tool's name is its own name.
* `resolveSuffix_eq` — what the loop of `get_resolved` finds.
* `leadsToTools_iff` — names lead to their tools exactly when they are apart.
* `not_leadsToTools_sameName` — a name leads to the tool of another server.
-/

namespace MyClaw

open McpRegistry ActivatedToolSet

variable {connect : McpServerConfig → Option McpServer} {configs : List McpServerConfig}
  {config : McpServerConfig} {server : McpServer} {tool : McpToolDef} {i : ℕ} {key name : List Char}

/-! ## The index -/

/-- The servers that connect, in their order. -/
def connected (connect : McpServerConfig → Option McpServer) (configs : List McpServerConfig) :
    List (McpServerConfig × McpServer) :=
  configs.filterMap fun config => (connect config).map (config, ·)

/-- The entries of the tools of the `i`-th server. -/
def serverEntries (p : (McpServerConfig × McpServer) × ℕ) : List (List Char × ℕ × List Char) :=
  p.1.2.tools.map fun tool => (prefixedName p.1.1.name tool.name, p.2, tool.name)

/-- The entries of all tools, in the order in which they are put into the index. -/
def advertised (connect : McpServerConfig → Option McpServer) (configs : List McpServerConfig) :
    List (List Char × ℕ × List Char) :=
  (connected connect configs).zipIdx.flatMap serverEntries

/-- One more server is connected behind the others. -/
lemma connected_append : connected connect (configs ++ [config]) =
    connected connect configs ++ ((connect config).map (config, ·)).toList := by
  rw [connected, List.filterMap_append]
  rw [List.filterMap_cons]
  cases connect config with
  | none => rfl
  | some server => rfl

/-- **What `connect_all` makes**: the servers that connect, and the entries of their tools. -/
lemma connectAll_eq : (connectAll connect configs).servers = (connected connect configs).map (·.2) ∧
    (connectAll connect configs).toolIndex = Entry.insertAll (advertised connect configs) ∅ := by
  induction configs using List.reverseRecOn with
  | nil => exact ⟨rfl, rfl⟩
  | append_singleton configs config ih =>
    obtain ⟨hservers, hindex⟩ := ih
    have hstep : connectAll connect (configs ++ [config]) =
        connectNext connect (connectAll connect configs) config := by
      rw [connectAll, List.foldl_append]
      rfl
    rw [hstep, connectNext, advertised, connected_append]
    cases hconnect : connect config with
    | none =>
      rw [Option.map_none, Option.toList_none, List.append_nil]
      exact ⟨hservers, hindex⟩
    | some server =>
      have hlength : (connectAll connect configs).servers.length =
          (connected connect configs).length := by
        rw [hservers, List.length_map]
      rw [Option.map_some, Option.toList_some, List.zipIdx_append, List.flatMap_append, List.map_append]
      refine ⟨congrArg (· ++ [server]) hservers, ?_⟩
      dsimp only
      rw [hindex, hlength, indexTools, Entry.insertAll, Entry.insertAll, List.foldl_append,
        List.zipIdx_singleton, List.flatMap_singleton, serverEntries, List.foldl_map, Nat.zero_add]
      rfl

/-- The `i`-th server that connects advertises the tool. -/
def Offers (connect : McpServerConfig → Option McpServer) (configs : List McpServerConfig) (i : ℕ)
    (config : McpServerConfig) (tool : McpToolDef) : Prop :=
  ∃ server, (connected connect configs)[i]? = some (config, server) ∧ tool ∈ server.tools

/-- What is advertised is what the servers offer, under prefixed names. -/
lemma mem_advertised {t : List Char} : (key, i, t) ∈ advertised connect configs ↔
    ∃ config tool, Offers connect configs i config tool ∧
      key = prefixedName config.name tool.name ∧ t = tool.name := by
  rw [advertised, List.mem_flatMap]
  constructor
  · rintro ⟨⟨⟨config, server⟩, j⟩, hserver, hentry⟩
    obtain ⟨tool, htool, heq⟩ := List.mem_map.1 hentry
    cases heq
    exact ⟨config, tool, ⟨server, List.mk_mem_zipIdx_iff_getElem?.1 hserver, htool⟩, rfl, rfl⟩
  · rintro ⟨config, tool, ⟨server, hserver, htool⟩, rfl, rfl⟩
    exact ⟨((config, server), i), List.mk_mem_zipIdx_iff_getElem?.2 hserver,
      List.mem_map.2 ⟨tool, htool, rfl⟩⟩

/-- **What the index leads to is advertised.** -/
lemma exists_offers_of_route {t : List Char}
    (h : (connectAll connect configs).route key = some (i, t)) :
    ∃ config tool, Offers connect configs i config tool ∧
      key = prefixedName config.name tool.name ∧ t = tool.name := by
  rw [route, connectAll_eq.2] at h
  rcases Entry.mem_of_lookup_insertAll h with hmem | hempty
  · exact mem_advertised.1 hmem
  · exact absurd ((AList.lookup_empty key).symm.trans hempty) nofun

/-- The servers of the registry are those that were connected, in order. -/
lemma servers_getElem? : (connectAll connect configs).servers[i]? =
    ((connected connect configs)[i]?).map (·.2) := by
  rw [connectAll_eq.1, List.getElem?_map]

/-! ## Names that are apart -/

/-- The separator is not empty. -/
lemma separator_ne_nil : separator ≠ [] := List.cons_ne_nil _ _

/-- A name that a cut at the first separator brings back: the separator is not in it, and it does
not end in half of one. -/
def CutsOff (server : List Char) : Prop := ¬ separator <:+: server ∧ server.getLast? ≠ some '_'

instance (server : List Char) : Decidable (CutsOff server) := instDecidableAnd

/-- Behind such a name no separator begins earlier than the one that is put there. -/
lemma cutsOff_iff {s : List Char} : CutsOff s ↔ ¬ separator <:+: s ++ separator.dropLast := by
  have hend : separator <:+ s ++ ['_'] ↔ s.getLast? = some '_' := by
    rw [List.suffix_concat_iff, ← List.singleton_suffix_iff_getLast?_eq_some]
    constructor
    · rintro (hnil | ⟨t, ht, hsuffix⟩)
      · exact absurd hnil nofun
      · obtain rfl : ['_'] = t := (List.append_left_inj _).1 ht
        exact hsuffix
    · exact fun h => .inr ⟨['_'], rfl, h⟩
  have hlast : s ++ separator.dropLast = s ++ ['_'] := rfl
  rw [CutsOff, hlast, List.infix_concat_iff, hend, not_or, and_comm]

/-- **The condition on the names**: the servers that have tools have names that can be cut off, and no
name of a tool has a separator. -/
def NamesApart (connect : McpServerConfig → Option McpServer) (configs : List McpServerConfig) : Prop :=
  ∀ i config tool, Offers connect configs i config tool →
    CutsOff config.name ∧ ¬ separator <:+: tool.name

/-- **The suffix of a tool's name is the name of the tool** exactly when that of its server can be cut
off. -/
lemma suffix_prefixedName_iff {s t : List Char} : suffix (prefixedName s t) = some t ↔ CutsOff s := by
  have hcuts : Holes.cutFirst separator (s ++ separator ++ t) = some (s, t) ↔
      ¬ separator <:+: s ++ separator.dropLast := Holes.cutFirst_append_iff separator_ne_nil
  rw [cutsOff_iff, ← hcuts, suffix, prefixedName]
  constructor
  · intro h
    obtain ⟨⟨before, after⟩, hcut, rfl⟩ := Option.map_eq_some_iff.1 h
    have hparts := Holes.append_of_cutFirst hcut
    obtain rfl := List.append_cancel_right (List.append_cancel_right hparts)
    exact hcut
  · intro h
    rw [h]
    rfl

/-- Names that can be cut off tell a server and its tool. -/
lemma prefixedName_inj {s t s' t' : List Char} (hs : CutsOff s) (hs' : CutsOff s')
    (h : prefixedName s t = prefixedName s' t') : s = s' ∧ t = t' :=
  Holes.eq_of_cutFirst separator_ne_nil (cutsOff_iff.1 hs) (cutsOff_iff.1 hs') h

/-! ## Resolving -/

section Resolving

variable {p : List Char × McpToolWrapper → Bool} {entries : List (List Char × McpToolWrapper)}
  {deferred : DeferredMcpToolSet} {names : List (List Char)} {wrapper : McpToolWrapper}

/-- The only element of a list, if there is one. -/
def onlyOne {α : Type} : List α → Option α
  | [a] => some a
  | _ => none

/-- The loop of `get_resolved` once a tool is found. -/
lemma resolveSuffix_some : resolveSuffix name (some wrapper) entries =
    if entries.any fun e => suffix e.1 = some name then none else some wrapper := by
  induction entries with
  | nil => rfl
  | cons e entries ih =>
    rw [resolveSuffix, ih, List.any_cons]
    by_cases hsuffix : suffix e.1 = some name
    · rw [if_neg (not_not.2 hsuffix), decide_eq_true hsuffix]
      rfl
    · rw [if_pos hsuffix, decide_eq_false hsuffix]
      rfl

/-- **The loop of `get_resolved`** finds the tool whose name has the suffix, if there is only one;
the order of the tools does not matter. -/
lemma resolveSuffix_eq : resolveSuffix name none entries =
    (onlyOne (entries.filter fun e => suffix e.1 = some name)).map (·.2) := by
  induction entries with
  | nil => rfl
  | cons e entries ih =>
    rw [resolveSuffix, List.filter_cons]
    by_cases hsuffix : suffix e.1 = some name
    · rw [if_neg (not_not.2 hsuffix), if_pos (decide_eq_true hsuffix), resolveSuffix_some]
      cases hrest : entries.filter fun e => suffix e.1 = some name with
      | nil =>
        have hany : (entries.any fun e => suffix e.1 = some name) = false := by
          rw [List.any_eq_false]
          exact List.filter_eq_nil_iff.1 hrest
        rw [hany]
        rfl
      | cons e' rest =>
        have hmem : e' ∈ entries.filter fun e => suffix e.1 = some name := hrest ▸ List.mem_cons_self
        rw [List.mem_filter] at hmem
        rw [List.any_eq_true.2 ⟨e', hmem⟩]
        rfl
    · rw [if_pos hsuffix, if_neg (by simpa using hsuffix), ih]

/-- A tool that is activated has its name and a route. -/
lemma activate_spec {registry : McpRegistry} (h : (DeferredMcpToolSet.fromRegistry registry).activate
    name = some wrapper) : wrapper.prefixedName = name ∧ ∃ entry, registry.route name = some entry := by
  obtain ⟨stub, hstub, rfl⟩ := Option.map_eq_some_iff.1 h
  have hname : stub.prefixedName = name := by simpa using List.find?_some hstub
  obtain ⟨name', -, hmade⟩ := List.mem_filterMap.1 (List.mem_of_find?_eq_some hstub)
  obtain ⟨toolDef, hdef, rfl⟩ := Option.map_eq_some_iff.1 hmade
  obtain rfl : name' = name := hname
  obtain ⟨entry, hentry, -⟩ := Option.bind_eq_some_iff.1 hdef
  exact ⟨rfl, entry, hentry⟩

/-- A tool that has a definition can be activated. -/
lemma exists_activate {registry : McpRegistry} {toolDef : McpToolDef}
    (h : registry.getToolDef name = some toolDef) :
    ∃ wrapper, (DeferredMcpToolSet.fromRegistry registry).activate name = some wrapper := by
  obtain ⟨entry, hentry, -⟩ := Option.bind_eq_some_iff.1 h
  have hkey : name ∈ registry.toolNames :=
    AList.lookup_isSome.1 (Option.isSome_iff_exists.2 ⟨entry, hentry⟩)
  have hstub : DeferredMcpToolStub.new name toolDef ∈
      (DeferredMcpToolSet.fromRegistry registry).stubs :=
    List.mem_filterMap.2 ⟨name, hkey, by rw [h]; rfl⟩
  have hfound : ((DeferredMcpToolSet.fromRegistry registry).getByName name).isSome = true :=
    List.find?_isSome.2 ⟨_, hstub, decide_eq_true rfl⟩
  obtain ⟨stub, hstub⟩ := Option.isSome_iff_exists.1 hfound
  exact ⟨stub.activate, by rw [DeferredMcpToolSet.activate, hstub]; rfl⟩

/-- Every activated tool stands under its own name, and is one of the registry. -/
lemma activateAll_spec {registry : McpRegistry} {k : List Char}
    (h : (activateAll (.fromRegistry registry) names).tools.lookup k = some wrapper) :
    wrapper.prefixedName = k ∧ ∃ entry, registry.route k = some entry := by
  induction names using List.reverseRecOn with
  | nil => exact absurd ((AList.lookup_empty k).symm.trans h) nofun
  | append_singleton names name ih =>
    rw [activateAll, List.foldl_append] at h
    rw [activateAll] at ih
    rw [List.foldl_cons, List.foldl_nil] at h
    split at h
    · rename_i tool htool
      have hlookup := Entry.lookup_insert_eq.symm.trans h
      split_ifs at hlookup with hk
      · obtain rfl := Option.some.inj hlookup
        subst hk
        exact activate_spec htool
      · exact ih hlookup
    · exact ih h

end Resolving

/-! ## Where the names lead -/

/-- The own name of the tool that is called. -/
def calledTool (registry : McpRegistry) (wrapper : McpToolWrapper) : Option (List Char) :=
  (registry.route wrapper.prefixedName).map (·.2)

/-- The activated tool whose own name it is, if there is exactly one. -/
def onlyTool (registry : McpRegistry) (set : ActivatedToolSet) (name : List Char) :
    Option McpToolWrapper :=
  (onlyOne ((Entry.toList set.tools).filter fun e => calledTool registry e.2 = some name)).map (·.2)

/-- **Names lead to the tools they were advertised for.** -/
structure LeadsToTools (connect : McpServerConfig → Option McpServer)
    (configs : List McpServerConfig) : Prop where
  /-- Every tool of a server that connects is reachable under exactly one name, and a call of that name
  runs the tool on its server. -/
  reachable : ∀ i config server tool, (connected connect configs)[i]? = some (config, server) →
    tool ∈ server.tools → ∃ key,
      (∀ other, (connectAll connect configs).route other = some (i, tool.name) ↔ other = key) ∧
      ∀ toStringPretty arguments, (connectAll connect configs).callTool toStringPretty key arguments =
        (server.callTool tool.name arguments).map toStringPretty
  /-- A name that is not the one under which a tool was activated stands for the only activated tool
  that has it for its own. -/
  resolved : ∀ names name,
    let set := activateAll (.fromRegistry (connectAll connect configs)) names
    set.isActivated name = false →
      set.getResolved name = onlyTool (connectAll connect configs) set name

/-- The names of the servers that connect are those of some of the servers. -/
lemma names_connected_sublist :
    ((connected connect configs).map (·.1.name)).Sublist (configs.map (·.name)) := by
  induction configs with
  | nil => exact List.Sublist.refl _
  | cons config configs ih =>
    rw [connected] at ih ⊢
    rw [List.filterMap_cons]
    cases connect config with
    | none => exact ih.cons _
    | some server => exact ih.cons_cons _

/-- Servers with different names have different places. -/
lemma index_inj {j : ℕ} {config' : McpServerConfig} {server' : McpServer}
    (hnames : (configs.map (·.name)).Nodup)
    (h : (connected connect configs)[i]? = some (config, server))
    (h' : (connected connect configs)[j]? = some (config', server'))
    (heq : config.name = config'.name) :
    i = j := by
  have hi : i < ((connected connect configs).map (·.1.name)).length := by
    rw [List.length_map]
    exact (List.getElem?_eq_some_iff.1 h).1
  refine (List.getElem?_inj hi (hnames.sublist names_connected_sublist)).1 ?_
  rw [List.getElem?_map, List.getElem?_map, h, h']
  exact congrArg some heq

namespace NamesApart

/-- **The index has every tool**, if the names are apart. -/
lemma route (hapart : NamesApart connect configs) (hnames : (configs.map (·.name)).Nodup)
    (h : Offers connect configs i config tool) :
    (connectAll connect configs).route (prefixedName config.name tool.name) = some (i, tool.name) := by
  rw [McpRegistry.route, connectAll_eq.2]
  refine Entry.lookup_insertAll (mem_advertised.2 ⟨config, tool, h, rfl, rfl⟩) ?_
  rintro ⟨j, t⟩ hentry
  obtain ⟨config', tool', h', hkey, htool⟩ := mem_advertised.1 hentry
  obtain ⟨hserver, hname⟩ := prefixedName_inj (hapart i config tool h).1
    (hapart _ config' tool' h').1 hkey
  obtain ⟨server, hi, -⟩ := h
  obtain ⟨server', hj, -⟩ := h'
  exact Prod.ext (index_inj hnames hi hj hserver).symm (htool.trans hname.symm)

/-- Every tool is reachable under exactly one name. -/
lemma reachable (hapart : NamesApart connect configs) (hnames : (configs.map (·.name)).Nodup)
    (hserver : (connected connect configs)[i]? = some (config, server)) (htool : tool ∈ server.tools) :
    ∃ key, (∀ other, (connectAll connect configs).route other = some (i, tool.name) ↔ other = key) ∧
      ∀ toStringPretty arguments,
        (connectAll connect configs).callTool toStringPretty key arguments =
          (server.callTool tool.name arguments).map toStringPretty := by
  have hroute := hapart.route hnames ⟨server, hserver, htool⟩
  refine ⟨prefixedName config.name tool.name, fun other => ⟨fun hother => ?_, ?_⟩,
    fun toStringPretty arguments => ?_⟩
  · obtain ⟨config', tool', ⟨server', hserver', -⟩, hkey, hname⟩ := exists_offers_of_route hother
    cases hserver.symm.trans hserver'
    rw [hkey, hname]
  · rintro rfl
    exact hroute
  · rw [callTool, hroute]
    dsimp only
    rw [servers_getElem?, hserver]
    rfl

/-- An activated tool stands for a tool that is advertised. -/
lemma entry_spec {names : List (List Char)} {e : List Char × McpToolWrapper}
    (h : e ∈ Entry.toList (activateAll (.fromRegistry (connectAll connect configs)) names).tools) :
    ∃ i config tool, Offers connect configs i config tool ∧
      e.1 = prefixedName config.name tool.name ∧
      calledTool (connectAll connect configs) e.2 = some tool.name := by
  obtain ⟨hname, ⟨i, t⟩, hroute⟩ := activateAll_spec (Entry.mem_toList.1 h)
  obtain ⟨config, tool, hoffers, hkey, htool⟩ := exists_offers_of_route hroute
  refine ⟨i, config, tool, hoffers, hkey, ?_⟩
  rw [calledTool, hname, hroute, Option.map_some, htool]

/-- A name that is left bare stands for the only tool that has it. -/
lemma resolved (hapart : NamesApart connect configs) {names : List (List Char)}
    (hbare :
      (activateAll (.fromRegistry (connectAll connect configs)) names).isActivated name = false) :
    (activateAll (.fromRegistry (connectAll connect configs)) names).getResolved name =
      onlyTool (connectAll connect configs)
        (activateAll (.fromRegistry (connectAll connect configs)) names) name := by
  have hget : (activateAll (.fromRegistry (connectAll connect configs)) names).get name = none :=
    AList.lookup_eq_none.2 (of_decide_eq_false hbare)
  rw [getResolved, hget, onlyTool]
  dsimp only
  split_ifs with hseparator
  · rw [List.filter_eq_nil_iff.2]
    · rfl
    · intro e he hcalled
      obtain ⟨i, config, tool, hoffers, -, hown⟩ := entry_spec he
      obtain rfl : tool.name = name :=
        Option.some.inj (hown.symm.trans (of_decide_eq_true hcalled))
      exact (hapart i config tool hoffers).2 hseparator
  · rw [resolveSuffix_eq]
    congr 2
    refine List.filter_congr fun e he => ?_
    obtain ⟨i, config, tool, hoffers, hkey, hown⟩ := entry_spec he
    have hsuffix := (suffix_prefixedName_iff (t := tool.name)).2 (hapart i config tool hoffers).1
    rw [hkey, hsuffix, hown]

end NamesApart

namespace LeadsToTools

/-- A tool that is activated alone tells whether the names are apart. -/
lemma namesApart (h : LeadsToTools connect configs) : NamesApart connect configs := by
  rintro i config tool ⟨server, hserver, htool⟩
  obtain ⟨key, hkeys, -⟩ := h.reachable i config server tool hserver htool
  have hroute := (hkeys key).2 rfl
  have hkey : key = prefixedName config.name tool.name := by
    obtain ⟨config', tool', ⟨server', hserver', -⟩, hkey, hname⟩ := exists_offers_of_route hroute
    cases hserver.symm.trans hserver'
    rw [hkey, hname]
  have hlookup : ((connectAll connect configs).getToolDef key).isSome = true := by
    rw [getToolDef, hroute, Option.bind_some]
    dsimp only
    rw [servers_getElem?, hserver]
    exact List.find?_isSome.2 ⟨tool, htool, decide_eq_true rfl⟩
  obtain ⟨toolDef, hdef⟩ := Option.isSome_iff_exists.1 hlookup
  obtain ⟨wrapper, hwrapper⟩ := exists_activate hdef
  have hset : activateAll (.fromRegistry (connectAll connect configs)) [key] =
      ActivatedToolSet.new.activate key wrapper := by
    rw [activateAll, List.foldl_cons, hwrapper]
    rfl
  have hlist : Entry.toList (ActivatedToolSet.new.activate key wrapper).tools = [(key, wrapper)] := rfl
  have hlonger : tool.name ≠ key := by
    intro heq
    have hlength := congrArg List.length (heq.trans hkey)
    rw [prefixedName, List.length_append, List.length_append] at hlength
    have hseparator : separator.length = 2 := rfl
    omega
  have hnone : (ActivatedToolSet.new.activate key wrapper).get tool.name = none :=
    (AList.lookup_insert_ne hlonger).trans (AList.lookup_empty _)
  have hcalled : calledTool (connectAll connect configs) wrapper = some tool.name := by
    rw [calledTool, (activate_spec hwrapper).1, hroute]
    rfl
  have honly : onlyTool (connectAll connect configs) (ActivatedToolSet.new.activate key wrapper)
      tool.name = some wrapper := by
    rw [onlyTool, hlist, List.filter_cons, if_pos (decide_eq_true hcalled), List.filter_nil]
    rfl
  have hresolved := h.resolved [key] tool.name
  dsimp only at hresolved
  rw [hset, honly, getResolved, hnone] at hresolved
  have hfound := hresolved (decide_eq_false (AList.lookup_eq_none.1 hnone))
  dsimp only at hfound
  split_ifs at hfound with hseparator
  refine ⟨?_, hseparator⟩
  rw [resolveSuffix_eq, hlist] at hfound
  by_cases hsuffix : suffix key = some tool.name
  · rw [hkey] at hsuffix
    exact suffix_prefixedName_iff.1 hsuffix
  · rw [List.filter_cons_of_neg (by simpa using hsuffix)] at hfound
    exact absurd hfound nofun

end LeadsToTools

/-- **Names lead to the tools they were advertised for exactly when they are apart**: for every list of
servers with different names, whichever of them connect. -/
theorem leadsToTools_iff (connect : McpServerConfig → Option McpServer)
    (configs : List McpServerConfig) (hnames : (configs.map (·.name)).Nodup) :
    LeadsToTools connect configs ↔ NamesApart connect configs := by
  refine ⟨LeadsToTools.namesApart, fun hapart => ⟨fun i config server tool hserver htool => ?_,
    fun names name hbare => ?_⟩⟩
  · exact hapart.reachable hnames hserver htool
  · exact hapart.resolved hbare

/-- A server with one tool. -/
def oneTool (name : String) : McpServer :=
  ⟨[⟨name.toList, none, .null⟩], fun _ _ => .ok .null⟩

/-- Servers that connect, each with the tool that the list has for it. -/
def connectThese (tools : List (String × String)) (config : McpServerConfig) : Option McpServer :=
  (tools.find? fun p => p.1.toList = config.name).map fun p => oneTool p.2

/-- Two servers, of which one connects. -/
theorem leadsToTools_oneServer :
    LeadsToTools (connectThese [("fs", "read")]) [⟨"fs".toList⟩, ⟨"git".toList⟩] := by
  refine (leadsToTools_iff _ _ (by decide)).2 ?_
  rintro i config tool ⟨server, hserver, htool⟩
  have hconnected : connected (connectThese [("fs", "read")]) [⟨"fs".toList⟩, ⟨"git".toList⟩] =
      [(⟨"fs".toList⟩, oneTool "read")] := rfl
  rw [hconnected, List.getElem?_singleton] at hserver
  split_ifs at hserver
  cases hserver
  obtain rfl := List.mem_singleton.1 htool
  decide

/-- **A name leads to the tool of another server**: the server `a` has the tool `b__c`, and the server
`a__b` has the tool `c`. -/
theorem not_leadsToTools_sameName :
    ¬∀ (connect : McpServerConfig → Option McpServer) (configs : List McpServerConfig),
      (configs.map (·.name)).Nodup → LeadsToTools connect configs := by
  intro h
  have hleads := h (connectThese [("a", "b__c"), ("a__b", "c")]) [⟨"a".toList⟩, ⟨"a__b".toList⟩] (by decide)
  obtain ⟨key, hkeys, -⟩ := hleads.reachable 0 _ _ _ rfl List.mem_cons_self
  have hindex : (connectAll (connectThese [("a", "b__c"), ("a__b", "c")])
      [⟨"a".toList⟩, ⟨"a__b".toList⟩]).toolIndex.entries = [⟨"a__b__c".toList, 1, "c".toList⟩] := rfl
  have hentry := AList.mem_lookup_iff.1 ((hkeys key).2 rfl)
  rw [hindex, List.mem_singleton] at hentry
  exact absurd (congrArg (fun e => e.2.1) hentry) Nat.zero_ne_one

end MyClaw
