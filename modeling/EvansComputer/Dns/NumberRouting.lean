import EvansComputer.Dns.NumberTables

/-!
# Where a number is found

The zone `e164.arpa` has a record for each block and for each ported number, under names that are
different for different numbers.  A number is looked up under its own name, and where that gives no
answer under that of its block; so it is found at the domain that it was ported to, or else at the
holder of its block.
-/

namespace EvansComputer.Dns

open Text

/-! ## Names of numbers -/

theorem enumDomain_eq (e164 : List Char) :
    enumDomain e164 = (digits e164).reverse.flatMap (fun d => [d, '.']) ++ e164Arpa := by
  unfold enumDomain
  induction (digits e164).reverse with
  | nil => simp [List.intercalate]
  | cons d l ih =>
    have hcons : List.intercalate ['.'] ((d :: l).map (fun d => [d]) ++ [e164Arpa]) =
        [d, '.'] ++ List.intercalate ['.'] (l.map (fun d => [d]) ++ [e164Arpa]) := by
      cases l with
      | nil => simp [List.intercalate]
      | cons d' l => simp [List.intercalate]
    rw [hcons, ih, List.flatMap_cons, List.append_assoc]

theorem flatMap_dot_injective {a b : List Char}
    (h : a.flatMap (fun d => [d, '.']) = b.flatMap fun d => [d, '.']) : a = b := by
  induction a generalizing b with
  | nil =>
    cases b with
    | nil => rfl
    | cons y b => cases h
  | cons x a ih =>
    cases b with
    | nil => cases h
    | cons y b =>
      rw [List.flatMap_cons, List.flatMap_cons] at h
      obtain ⟨hhead, htail⟩ := List.append_inj h rfl
      rw [(List.cons.inj hhead).1, ih htail]

theorem digits_injective {e e' : List Char} (h : enumDomain e = enumDomain e') :
    digits e = digits e' := by
  rw [enumDomain_eq, enumDomain_eq] at h
  exact List.reverse_injective (flatMap_dot_injective (List.append_cancel_right h))

theorem enumDomain_ne {e164 : List Char} (h : digits e164 ≠ []) : enumDomain e164 ≠ e164Arpa := by
  intro heq
  rw [enumDomain_eq] at heq
  have hnil := List.append_cancel_right (heq.trans (List.nil_append _).symm)
  have hrev : (digits e164).reverse = [] := flatMap_dot_injective (b := []) hnil
  exact h (List.reverse_eq_nil_iff.mp hrev)

section
variable {cc num num' : List Char} {k k' : ℕ} (hcc : ∀ c ∈ cc, c.isDigit = true)
include hcc

theorem aus_isNumber (h : IsNumber cc k num) : aus num = num := by
  obtain ⟨r, rfl, -, hdigit⟩ := h
  have hall : ∀ c ∈ cc ++ r, c.isDigit = true :=
    fun c hc => (List.mem_append.mp hc).elim (hcc c) (hdigit c)
  have hdigits : digits ('+' :: (cc ++ r)) = cc ++ r := by
    unfold digits
    rw [List.filter_cons_of_neg (by decide), List.filter_eq_self.mpr hall]
  rw [aus, hdigits]

theorem isNumber_injective (h : IsNumber cc k num) (h' : IsNumber cc k' num')
    (heq : enumDomain num = enumDomain num') : num = num' := by
  rw [← aus_isNumber hcc h, ← aus_isNumber hcc h', aus, aus, digits_injective heq]

theorem digits_ne_nil (h : IsNumber cc (k + 1) num) : digits num ≠ [] := by
  intro hnil
  have haus := aus_isNumber hcc h
  obtain ⟨r, rfl, hlen, -⟩ := h
  rw [aus, hnil] at haus
  have hlength := congrArg List.length haus
  rw [List.length_cons, List.length_cons, List.length_append, hlen] at hlength
  simp at hlength

end

theorem IsNumber.unique {cc num : List Char} {k k' : ℕ} (h : IsNumber cc k num)
    (h' : IsNumber cc k' num) : k = k' := by
  obtain ⟨r, rfl, hr, -⟩ := h
  obtain ⟨r', heq, hr', -⟩ := h'
  have hsame := List.append_cancel_left (List.cons.inj heq).2
  rw [← hr, ← hr', hsame]

/-! ## Lookups -/

namespace Numbering

variable {cc : List Char} {n : Numbering} {serial : UInt32} {ns : Name}

/-- The only delegation is at the apex, and there are no aliases. -/
theorem rtype_of_mem_zone {r : Record} (h : r ∈ (n.zone serial ns).records) :
    r.rtype = typeSoa ∨ (r.rtype = typeNs ∧ r.name = e164Arpa) ∨ r.rtype = typeNaptr := by
  unfold zone Zone.records at h
  simp only [List.mem_cons, List.mem_append, List.mem_map] at h
  rcases h with rfl | rfl | ⟨e, -, rfl⟩ | ⟨e, -, rfl⟩
  · exact .inl rfl
  · exact .inr (.inl ⟨rfl, rfl⟩)
  · exact .inr (.inr rfl)
  · exact .inr (.inr rfl)

theorem ne_of_mem_pathUp {origin : Name} {fuel : ℕ} {name : Name} {path : List Name}
    (h : Zone.pathUp origin fuel name = some path) :
    ∀ c ∈ path, c ≠ origin := by
  induction fuel generalizing name path with
  | zero => cases h
  | succ fuel ih =>
    rw [Zone.pathUp] at h
    split at h
    · cases h
      exact fun c hc => absurd hc List.not_mem_nil
    rename_i hne
    split at h
    · cases h
    obtain ⟨path', hpath', rfl⟩ := Option.map_eq_some_iff.mp h
    intro c hc
    rcases List.mem_cons.mp hc with rfl | hc
    · exact hne
    · exact ih hpath' c hc

theorem cutAbove_zone (name : Name) : (n.zone serial ns).cutAbove name = none := by
  unfold Zone.cutAbove
  rw [Option.bind_eq_none_iff]
  intro path hpath
  rw [List.find?_eq_none]
  intro c hc hany
  obtain ⟨r, hr, hc'⟩ := List.any_eq_true.mp hany
  rw [Bool.and_eq_true, decide_eq_true_eq, decide_eq_true_eq] at hc'
  rcases rtype_of_mem_zone hr with h | ⟨-, h⟩ | h
  · exact absurd (hc'.2.symm.trans h) (by decide)
  · exact ne_of_mem_pathUp hpath c (List.mem_reverse.mp hc) (hc'.1.symm.trans h)
  · exact absurd (hc'.2.symm.trans h) (by decide)

/-- The NAPTR records of a name. -/
def hits (n : Numbering) (serial : UInt32) (ns name : Name) : List Record :=
  ((n.zone serial ns).records.filter (·.name = name)).filter fun r =>
    typeNaptr = typeAny || r.rtype = typeNaptr

/-- **A lookup gives the records of the name, or no answer.** -/
theorem lookup_zone (name : Name) :
    (n.hits serial ns name ≠ [] ∧ (n.zone serial ns).lookup name typeNaptr = .answer
      (n.hits serial ns name)) ∨
      (n.hits serial ns name = [] ∧ ∀ rs, (n.zone serial ns).lookup name typeNaptr ≠
        .answer rs) := by
  have hcname : (if typeNaptr ≠ typeCname ∧ typeNaptr ≠ typeAny then
      ((n.zone serial ns).records.filter (·.name = name)).find? (·.rtype = typeCname) else none) =
        none := by
    rw [if_pos (by decide), List.find?_eq_none]
    intro r hr hc
    rw [decide_eq_true_eq] at hc
    rcases rtype_of_mem_zone (List.mem_of_mem_filter hr) with h | ⟨h, -⟩ | h
    · exact absurd (hc.symm.trans h) (by decide)
    · exact absurd (hc.symm.trans h) (by decide)
    · exact absurd (hc.symm.trans h) (by decide)
  unfold Zone.lookup
  rw [Zone.lookupFrom, cutAbove_zone]
  dsimp only
  rw [hcname]
  dsimp only
  by_cases hnil : n.hits serial ns name = []
  · refine .inr ⟨hnil, fun rs => ?_⟩
    rw [if_neg (fun hne => hne hnil)]
    split
    · exact fun h => by cases h
    · exact fun h => by cases h
  · exact .inl ⟨hnil, if_pos hnil⟩

/-- The records of one table. -/
theorem filter_records {t : OrderedMap (List Char) (Name × UInt64)} {a : List Char}
    (hinj : ∀ key v, t[key]? = some v → enumDomain key = enumDomain a → key = a) :
    ((t.toList.map fun e => naptrRecord (enumDomain e.1) e.2.1).filter
      (·.name = enumDomain a)).filter
        (fun r => typeNaptr = typeAny || r.rtype = typeNaptr) =
      t[a]?.toList.map fun v => naptrRecord (enumDomain a) v.1 := by
  have hfilter : t.toList.filter (fun e => decide (enumDomain e.1 = enumDomain a)) =
    t.toList.filter fun e => decide (e.1 = a) := by
    refine List.filter_congr fun e he => ?_
    rw [decide_eq_decide]
    exact ⟨hinj e.1 e.2 (Std.ExtTreeMap.mem_toList_iff_getElem?_eq_some.mp he), fun h => by rw [h]⟩
  rw [List.filter_map, List.filter_eq_self.mpr]
  · have hname :
      t.toList.filter ((fun r : Record => decide (r.name = enumDomain a)) ∘
      fun e => naptrRecord (enumDomain e.1) e.2.1) =
        t.toList.filter fun e => decide (enumDomain e.1 = enumDomain a) := rfl
    rw [hname, hfilter, OrderedMap.filter_toList, List.map_map]
    rfl
  · intro r hr
    obtain ⟨e, -, rfl⟩ := List.mem_map.mp hr
    exact Bool.or_eq_true_iff.mpr (.inr (decide_eq_true rfl))

/-- The records of a name that is not the apex: those of the two tables. -/
theorem hits_eq {a : List Char} (hne : enumDomain a ≠ e164Arpa)
    (hblocks : ∀ key v, n.blocks[key]? = some v → enumDomain key = enumDomain a → key = a)
    (hports : ∀ key v, n.ports[key]? = some v → enumDomain key = enumDomain a → key = a) :
    n.hits serial ns (enumDomain a) =
      (n.blocks[a]?.toList.map fun v => naptrRecord (enumDomain a) v.1) ++
        n.ports[a]?.toList.map fun v => naptrRecord (enumDomain a) v.1 := by
  unfold hits zone Zone.records
  rw [List.filter_cons_of_neg (by simpa using hne.symm),
    List.filter_cons_of_neg (by simpa using hne.symm), List.filter_append,
    List.filter_append]
  exact congrArg₂ _ (filter_records hblocks) (filter_records hports)

theorem enumSipUri_record {d name : Name} (hd : IsSipDomain d) (num : List Char) :
    enumSipUri (naptrs [naptrRecord name d]) num = some ("sip:".toList ++ aus num ++ '@' :: d) :=
  enumSipUri_sipNaptr hd.plain num

/-- The domain that a number belongs to. -/
def carrier (n : Numbering) (num : List Char) : Option Name :=
  (n.blocks[blockOf num]?).map fun owner => ((n.ports[num]?).map (·.1)).getD owner.1

theorem route_of_no_answer {z : Zone} {num : List Char}
    (h : ∀ rs, z.lookup (enumDomain num) typeNaptr ≠ .answer rs) :
    route z num = answerUri num (z.lookup (enumBlockDomain (blockOf num)) typeNaptr) := by
  unfold route
  split
  · rename_i hanswer
    exact absurd hanswer (h _)
  · rfl

/-- What the zone says under the name of a table's entry. -/
theorem answerUri_lookup {name : Name} {num : List Char} {v : Option (Name × UInt64)}
    {f : Name × UInt64 → Record} (hhits : n.hits serial ns name = v.toList.map f) :
    answerUri num ((n.zone serial ns).lookup name typeNaptr) = v.bind fun v => enumSipUri
      (naptrs [f v]) num := by
  rcases @lookup_zone n serial ns name with ⟨hne, hlookup⟩ | ⟨hnil, hno⟩
  · cases v with
    | none => exact absurd hhits hne
    | some v =>
      rw [hlookup, hhits]
      rfl
  · cases v with
    | none =>
      unfold answerUri
      split
      · rename_i hanswer
        exact absurd hanswer (hno _)
      · rfl
    | some v =>
      rw [hhits] at hnil
      cases hnil

/-- **A number is found at its carrier**, and a number of no block nowhere. -/
theorem route_zone (hcc : ∀ c ∈ cc, c.isDigit = true) (hn : Kept cc n) {num : List Char}
    (hnum : IsNumber cc 10 num) (serial : UInt32) (ns : Name) : route
    (n.zone serial ns) num = (n.carrier num).map fun d => "sip:".toList ++ num ++ '@' :: d := by
  have hblock := isNumber_blockOf hnum
  have hhits : n.hits serial ns (enumDomain num) = n.ports[num]?.toList.map fun v =>
    naptrRecord (enumDomain num) v.1 := by
    have hnone : n.blocks[num]? = none := by
      cases hv : n.blocks[num]? with
      | none => rfl
      | some v => exact absurd ((hn.blocks num v hv).1.unique hnum) (by decide)
    rw [hits_eq (enumDomain_ne (digits_ne_nil hcc hnum))
      (fun key v hv => isNumber_injective hcc (hn.blocks key v hv).1 hnum)
      (fun key v hv => isNumber_injective hcc (hn.ports key v hv).1 hnum), hnone]
    rfl
  have hhits' : n.hits serial ns (enumBlockDomain (blockOf num)) =
      n.blocks[blockOf num]?.toList.map fun v => naptrRecord (enumDomain (blockOf num)) v.1 := by
    have hnone : n.ports[blockOf num]? = none := by
      cases hv : n.ports[blockOf num]? with
      | none => rfl
      | some v => exact absurd ((hn.ports _ v hv).1.unique hblock) (by decide)
    rw [enumBlockDomain, hits_eq (enumDomain_ne (digits_ne_nil hcc hblock))
      (fun key v hv => isNumber_injective hcc (hn.blocks key v hv).1 hblock)
      (fun key v hv => isNumber_injective hcc (hn.ports key v hv).1 hblock), hnone]
    exact List.append_nil _
  unfold carrier
  cases hport : n.ports[num]? with
  | some v =>
    obtain ⟨-, hdomain, hheld⟩ := hn.ports num v hport
    obtain ⟨owner, howner⟩ := Option.isSome_iff_exists.mp hheld
    rw [hport] at hhits
    rcases @lookup_zone n serial ns (enumDomain num) with ⟨-, hlookup⟩ | ⟨hnil, -⟩
    · unfold route
      rw [hlookup, hhits, howner]
      dsimp only
      rw [Option.toList_some, List.map_singleton, enumSipUri_record hdomain, aus_isNumber hcc hnum]
      rfl
    · rw [hhits] at hnil
      cases hnil
  | none =>
    rw [hport] at hhits
    rcases @lookup_zone n serial ns (enumDomain num) with ⟨hne, -⟩ | ⟨-, hno⟩
    · exact absurd hhits hne
    rw [route_of_no_answer hno, answerUri_lookup hhits']
    cases howner : n.blocks[blockOf num]? with
    | none => rfl
    | some owner =>
      rw [Option.bind_some, enumSipUri_record (hn.owner howner), aus_isNumber hcc hnum]
      rfl

end Numbering

end EvansComputer.Dns
