import Reflowfy.Assoc.Lookup
import Reflowfy.Sources.Templates

namespace Reflowfy

variable {render : String → Except TemplateError String} {str : Value → String}

-- Every string of an object renders to itself.
def Unchanged (render : String → Except TemplateError String) (v : Value) : Prop :=
  ∀ s ∈ ParameterResolver.strings v, ParameterResolver.resolve render s = .ok s

-- What every string of an object renders to renders to itself.
def Settled (render : String → Except TemplateError String) (v : Value) : Prop :=
  ∀ s ∈ ParameterResolver.strings v, ∀ t, ParameterResolver.resolve render s = .ok t →
    ParameterResolver.resolve render t = .ok t

-- What every string of an object renders to is a template that renders.
def RendersAgain (render : String → Except TemplateError String) (v : Value) : Prop :=
  ∀ s ∈ ParameterResolver.strings v, ∀ t, ParameterResolver.resolve render s = .ok t →
    ∃ t', ParameterResolver.resolve render t = .ok t'

-- A property of all that the strings of an object render to is one of the strings of the
-- rendered object.
theorem forall_strings_resolved {v v' : Value}
    (hv : ParameterResolver.resolve_value render v = .ok v') (p : String → Prop) :
    (∀ s ∈ ParameterResolver.strings v', p s) ↔
      ∀ s ∈ ParameterResolver.strings v, ∀ t, ParameterResolver.resolve render s = .ok t → p t := by
  have hstrings := ParameterResolver.strings_resolved v v' hv
  revert hstrings
  generalize ParameterResolver.strings v = l, ParameterResolver.strings v' = l'
  intro hstrings
  induction hstrings with
  | nil => simp
  | cons hs _ ih => simp only [List.forall_mem_cons, ih, hs, Except.ok.injEq, forall_eq']

theorem unchanged_resolved_iff {v v' : Value}
    (hv : ParameterResolver.resolve_value render v = .ok v') :
    Unchanged render v' ↔ Settled render v :=
  forall_strings_resolved hv _

theorem renders_resolved_iff {v v' : Value}
    (hv : ParameterResolver.resolve_value render v = .ok v') :
    (∃ t, ParameterResolver.resolve_value render v' = .ok t) ↔ RendersAgain render v :=
  (ParameterResolver.renders_iff v').trans (forall_strings_resolved hv _)

-- A default that holds no string changes nothing.
theorem settled_getD_iff (value : Option Value) (n : ℤ) :
    Settled render (value.getD (.int n)) ↔ Settled render (value.getD .None) := by
  cases value with
  | none => simp [Settled, ParameterResolver.strings]
  | some v => rfl

theorem Unchanged.renders {v : Value} (h : Unchanged render v) :
    ∃ v', ParameterResolver.resolve_value render v = .ok v' :=
  ⟨v, (ParameterResolver.plain_iff v).mpr h⟩

namespace SourceConfig

variable {setting : String → Bool} {config resolved : SourceConfig}

theorem used_eq_ok {used' : SourceConfig} : config.used render setting = .ok used' ↔
    List.Forall₂ (fun own other => ∃ v, ParameterResolver.resolve_value render own.2 = .ok v ∧
      (own.1, if setting own.1 then own.2 else v) = other) config used' := by
  rw [used, Paging.mapM_eq_ok]
  simp only [Paging.bind_eq_ok, pure, Except.pure, Except.ok.injEq]

theorem resolve_parameters_eq_ok : config.resolve_parameters render = .ok resolved ↔
    List.Forall₂ (fun own other => ∃ v, ParameterResolver.resolve_value render own.2 = .ok v ∧
      (own.1, v) = other)
      config resolved := by
  rw [resolve_parameters, Paging.mapM_eq_ok]
  simp only [Paging.bind_eq_ok, pure, Except.pure, Except.ok.injEq]

-- A config is used as it renders where the settings render to themselves.
theorem used_resolved_iff (hresolved : config.resolve_parameters render = .ok resolved) :
    config.used render setting = .ok resolved ↔ ∀ entry ∈ config, setting entry.1 →
      Unchanged render entry.2 := by
  rw [used_eq_ok]
  rw [resolve_parameters_eq_ok] at hresolved
  induction hresolved with
  | nil => simp
  | @cons own other config resolved hown _ ih =>
      obtain ⟨v, hv, rfl⟩ := hown
      rw [List.forall₂_cons, ih, List.forall_mem_cons]
      refine and_congr_left fun _ => ?_
      by_cases hk : setting own.1
      · simp only [hk, if_true, forall_const, Unchanged, ← ParameterResolver.plain_iff,
          hv, Except.ok.injEq]
        constructor
        · intro h
          obtain ⟨_, _, heq⟩ := h
          exact (Prod.mk.inj heq).2.symm
        · intro h
          exact ⟨v, rfl, by rw [h]⟩
      · simp [hk, hv]

theorem renders_of_mem (hresolved : config.resolve_parameters render = .ok resolved)
    {entry : String × Value}
    (hentry : entry ∈ config) : ∃ v, ParameterResolver.resolve_value render entry.2 = .ok v := by
  rw [resolve_parameters_eq_ok] at hresolved
  induction hresolved with
  | nil => cases hentry
  | cons hown _ ih =>
      obtain ⟨v, hv, -⟩ := hown
      rcases List.mem_cons.mp hentry with rfl | hrest
      · exact ⟨v, hv⟩
      · exact ih hrest

-- A config can be used where all of it renders.
theorem used_exists_iff : (∃ used', config.used render setting = .ok used') ↔
    ∀ entry ∈ config, ∃ v, ParameterResolver.resolve_value render entry.2 = .ok v := by
  simp only [used_eq_ok]
  induction config with
  | nil => simp
  | cons own config ih =>
      rw [List.forall_mem_cons, ← ih]
      constructor
      · rintro ⟨_, hused⟩
        obtain ⟨_, _, ⟨v, hv, -⟩, hused, -⟩ := List.forall₂_cons_left_iff.mp hused
        exact ⟨⟨v, hv⟩, _, hused⟩
      · rintro ⟨⟨v, hv⟩, used', hused⟩
        exact ⟨_, .cons ⟨v, hv, rfl⟩ hused⟩

theorem used_lookup {used' : SourceConfig}
    (hused : config.used render setting = .ok used') (k : String) :
    Option.Rel (fun v v' => ∃ t, ParameterResolver.resolve_value render v = .ok t ∧
      v' = if setting k then v else t)
      (config.lookup k) (used'.lookup k) := by
  refine Assoc.lookup_forall₂
    (R := fun k v v' => ∃ t, ParameterResolver.resolve_value render v = .ok t ∧
    v' = if setting k then v else t) ((used_eq_ok.mp hused).imp fun own other h => ?_) k
  obtain ⟨v, hv, rfl⟩ := h
  exact ⟨rfl, v, hv, rfl⟩

theorem resolve_lookup (hresolved : config.resolve_parameters render = .ok resolved) (k : String) :
    Option.Rel (fun v v' => ParameterResolver.resolve_value render v = .ok v') (config.lookup k)
      (resolved.lookup k) := by
  refine Assoc.lookup_forall₂ (R := fun _ v v' => ParameterResolver.resolve_value render v = .ok v')
    ((resolve_parameters_eq_ok.mp hresolved).imp fun own other h => ?_) k
  obtain ⟨v, hv, rfl⟩ := h
  exact ⟨rfl, hv⟩

-- With a default that is no template, a value of the rendered config is the rendered value.
theorem resolve_getD (hresolved : config.resolve_parameters render = .ok resolved)
    (k : String) {default : Value}
    (hdefault : ParameterResolver.resolve_value render default = .ok default) :
    ParameterResolver.resolve_value render ((config.lookup k).getD default) =
      .ok ((resolved.lookup k).getD default) := by
  have hlookup := resolve_lookup hresolved k
  generalize config.lookup k = own, resolved.lookup k = other at hlookup ⊢
  cases hlookup with
  | none => exact hdefault
  | some hv => exact hv

theorem resolve_get (hresolved : config.resolve_parameters render = .ok resolved) (k : String) :
    ParameterResolver.resolve_value render (config.get k) = .ok (resolved.get k) :=
  resolve_getD hresolved k rfl

theorem used_get_of_setting {used' : SourceConfig}
    (hused : config.used render setting = .ok used') {k : String}
    (hk : setting k = true) : used'.get k = config.get k := by
  unfold get
  have hlookup := used_lookup hused k
  generalize config.lookup k = own, used'.lookup k = other at hlookup ⊢
  cases hlookup with
  | none => rfl
  | some h =>
      obtain ⟨t, -, rfl⟩ := h
      simp [hk]

-- What is rendered is used as it stands in the config where it renders to itself.
theorem used_get_iff {used' : SourceConfig}
    (hused : config.used render setting = .ok used') {k : String}
    (hk : setting k = false) : used'.get k = config.get k ↔ Unchanged render (config.get k) := by
  rw [Unchanged, ← ParameterResolver.plain_iff]
  unfold get
  have hlookup := used_lookup hused k
  generalize config.lookup k = own, used'.lookup k = other at hlookup ⊢
  cases hlookup with
  | none => simp [ParameterResolver.resolve_value]
  | some h =>
      obtain ⟨t, ht, rfl⟩ := h
      simp [hk, ht]

-- Where the keys of a part of a config are its own, the part is used as it is where its
-- settings render, and all else of it to itself.
theorem used_as_is_iff {part : SourceConfig} (hget : ∀ entry ∈ part, entry ∈ config ∧
    config.get entry.1 = entry.2)
    (hrest : ∀ entry ∈ config, entry ∈ part ∨
      ∃ v, ParameterResolver.resolve_value render entry.2 = .ok v) :
    (∃ used', config.used render setting = .ok used' ∧
      ∀ entry ∈ part, used'.get entry.1 = entry.2) ↔
      ∀ entry ∈ part, if setting entry.1 then
        ∃ v, ParameterResolver.resolve_value render entry.2 = .ok v
        else Unchanged render entry.2 := by
  constructor
  · rintro ⟨used', hused, hall⟩ entry hentry
    have ⟨hmem, hkey⟩ := hget entry hentry
    split
    · exact used_exists_iff.mp ⟨used', hused⟩ entry hmem
    · rename_i hsetting
      rw [← hkey, ← used_get_iff hused (Bool.eq_false_iff.mpr hsetting), hkey]
      exact hall entry hentry
  · intro h
    have hrenders : ∀ entry ∈ config, ∃ v, ParameterResolver.resolve_value render
        entry.2 = .ok v := by
      intro entry hentry
      rcases hrest entry hentry with hpart | hrenders
      · have hone := h entry hpart
        split at hone
        · exact hone
        · exact hone.renders
      · exact hrenders
    obtain ⟨used', hused⟩ := used_exists_iff.mpr hrenders
    refine ⟨used', hused, fun entry hentry => ?_⟩
    have hone := h entry hentry
    have hkey := (hget entry hentry).2
    rw [← hkey]
    split at hone <;> rename_i hsetting
    · exact used_get_of_setting hused hsetting
    · rw [used_get_iff hused (Bool.eq_false_iff.mpr hsetting), hkey]
      exact hone

-- A setting is used as it is rendered where it renders to itself.
theorem used_lookup_iff {own used' : SourceConfig} (hused : config.used render setting = .ok used')
    (hresolved : own.resolve_parameters render = .ok resolved) {k : String} (hk : setting k = true)
    (hown : config.lookup k = own.lookup k) : used'.lookup k = resolved.lookup k ↔
      Unchanged render (own.get k) := by
  have hused := used_lookup hused k
  have hrendered := resolve_lookup hresolved k
  rw [hown] at hused
  unfold get
  rw [Unchanged, ← ParameterResolver.plain_iff]
  generalize own.lookup k = value, used'.lookup k = used,
    resolved.lookup k = rendered at hused hrendered ⊢
  cases hrendered with
  | none =>
      cases hused
      simp [ParameterResolver.resolve_value]
  | @some v v' hv =>
      cases hused with
      | some h =>
          obtain ⟨t, -, rfl⟩ := h
          simp [hk, hv, eq_comm]

end SourceConfig

namespace PlannedSource

-- The slice of a child, as `fetch` has to find it.
def UsesSlice (used : SourceConfig) : ElasticSource.Slice → Prop
  | .window pit_id search_after size => used.get "pit_id" = pit_id ∧
      used.get "window" = .dict [(.str "search_after", search_after), (.str "size", .int size)]
  | .slice pit_id id max => used.get "pit_id" = pit_id ∧
      used.get "slice" = .dict [(.str "id", .int id), (.str "max", .int max)]
  | .range field order after upto => used.get "window" = .dict
      [(.str "mode", .str "range"), (.str "field", field),
      (.str "order", order), (.str "after", after), (.str "upto", upto)]
  | .composite_page after size => used.get "composite_page" = .dict
      [(.str "after", after), (.str "size", .int size)]

-- The rendered query over a window of the rendered id column.
def window_query (str : Value → String) (query id_column : Value) (cur nxt : ℤ) : String :=
  "SELECT * FROM (" ++ str query ++ ") AS sub WHERE " ++ str id_column ++ " >= " ++
    toString cur ++ " AND " ++
    str id_column ++ " < " ++ toString nxt

-- All that is no engine kwarg.
def sql_params : List String :=
  ["self", "connection_url", "query", "id_column", "time_column", "batch_size",
    "engine_kwargs", "slice"]

-- What is used is the rendered config of the parent, and the slice.
def UsesRendered (str : Value → String) (resolved used : SourceConfig) : PlannedSource → Prop
  | .elastic_self | .sql_self => used = resolved
  | .elastic slice =>
      (∀ k ∈ ["url", "auth", "verify_certs", "index", "base_query", "scroll", "size"],
        used.get k = resolved.get k) ∧
      used.get "pit_keep_alive" =
        .str (if (resolved.get "pit_keep_alive").truthy then
          str (resolved.get "pit_keep_alive") else "30m") ∧
      UsesSlice used slice
  | .sql cur nxt =>
      (∀ k ∈ ["connection_url", "time_column"], used.get k = resolved.get k) ∧
      used.get "batch_size" = (resolved.lookup "batch_size").getD (.int 1000) ∧
      used.get "query" = .str
        (window_query str (resolved.get "query") (resolved.get "id_column") cur nxt) ∧
      used.get "id_column" = .None ∧
      used.get "slice" = .dict [(.str "lo", .int cur), (.str "hi", .int nxt)] ∧
      ∀ k ∉ sql_params,
        used.lookup k = resolved.lookup k
  | .s3 keys =>
      (∀ k ∈ ["region_name", "aws_access_key_id", "aws_secret_access_key", "endpoint_url",
        "bucket", "content_type",
        "file_pattern", "prefix", "read_content"], used.get k = resolved.get k) ∧
      used.get "page_size" = (resolved.lookup "page_size").getD (.int 1000) ∧
      used.get "keys" = .list (keys.map .str)

-- Where the templates render at all, `fetch` has a config to work with, and in it each
-- template of the parent is rendered once.
def RenderedOnce (render : String → Except TemplateError String) (str : Value → String)
    (own : SourceConfig) (planned : PlannedSource) : Prop :=
  ∀ resolved, own.resolve_parameters render = .ok resolved →
    ∃ used, (planned.config str own resolved).used render planned.setting = .ok used ∧
      planned.UsesRendered str resolved used

-- The values of a slice.
def slice_values : ElasticSource.Slice → List Value
  | .window pit_id search_after _ => [pit_id, search_after]
  | .slice pit_id .. => [pit_id]
  | .range field order after upto => [field, order, after, upto]
  | .composite_page after _ => [after]

-- No param brings a template in. A source planned as one job connects with its settings as
-- they are, so those are no templates; a child renders again what the plan has rendered, so
-- that is the same rendered again, and its client settings at least render.
def Stable (render : String → Except TemplateError String) (str : Value → String)
    (own : SourceConfig) :
    PlannedSource → Prop
  | .elastic_self => ∀ entry ∈ own, entry.1 ∈ ["url", "auth", "verify_certs"] →
      Unchanged render entry.2
  | .sql_self => ∀ entry ∈ own, entry.1 = "connection_url" ∨
      entry.1 ∉ sql_params →
      Unchanged render entry.2
  | .elastic slice =>
      (∀ k ∈ ["url", "auth", "verify_certs"], RendersAgain render (own.get k)) ∧
      (∀ k ∈ ["index", "base_query", "scroll", "size"], Settled render (own.get k)) ∧
      (∀ v, ParameterResolver.resolve_value render (own.get "pit_keep_alive") = .ok v →
        Unchanged render (.str (if v.truthy then str v else "30m"))) ∧
      ∀ v ∈ slice_values slice, Unchanged render v
  | .sql cur nxt =>
      RendersAgain render (own.get "connection_url") ∧
      (∀ k ∈ ["time_column", "batch_size"], Settled render (own.get k)) ∧
      (∀ query id_column, ParameterResolver.resolve_value render (own.get "query") = .ok query →
        ParameterResolver.resolve_value render (own.get "id_column") = .ok id_column →
        Unchanged render (.str (window_query str query id_column cur nxt))) ∧
      ∀ k ∉ sql_params,
        Unchanged render (own.get k)
  | .s3 keys =>
      (∀ k ∈ ["region_name", "aws_access_key_id", "aws_secret_access_key", "endpoint_url",
        "bucket", "content_type",
        "file_pattern"], RendersAgain render (own.get k)) ∧
      (∀ k ∈ ["prefix", "read_content", "page_size"], Settled render (own.get k)) ∧
      ∀ key ∈ keys, Unchanged render (.str key)

theorem uses_slice_iff (used : SourceConfig) (slice : ElasticSource.Slice) :
    UsesSlice used slice ↔ ∀ entry ∈ slice.config, used.get entry.1 = entry.2 := by
  cases slice <;> simp [UsesSlice, ElasticSource.Slice.config]

theorem slice_unchanged_iff (slice : ElasticSource.Slice) :
    (∀ entry ∈ slice.config, if ElasticSource.setting entry.1 then
        ∃ v, ParameterResolver.resolve_value render entry.2 = .ok v else Unchanged render entry.2) ↔
      ∀ v ∈ slice_values slice, Unchanged render v := by
  have hrange : ParameterResolver.resolve render "range" = .ok "range" :=
    ParameterResolver.resolve_plain rfl
  cases slice <;> simp [hrange, ElasticSource.Slice.config, slice_values, ElasticSource.setting,
    Unchanged, ParameterResolver.strings,
    ParameterResolver.entry_strings, or_imp, forall_and]

theorem elastic_rendered_iff {own resolved : SourceConfig}
    (hresolved : own.resolve_parameters render = .ok resolved) (slice : ElasticSource.Slice) :
    (∃ used, (ElasticSource.sub_source str resolved slice).used render
      ElasticSource.setting = .ok used ∧
      UsesRendered str resolved used (.elastic slice)) ↔
        Stable render str own (.elastic slice) := by
  have hget : ∀ entry ∈ ElasticSource.sub_source str resolved slice,
      (ElasticSource.sub_source str resolved slice).get entry.1 = entry.2 := by
    cases slice <;> simp [ElasticSource.sub_source, ElasticSource.Slice.config,
      SourceConfig.get, List.lookup_cons]
  have huses : ∀ used, UsesRendered str resolved used (.elastic slice) ↔
      ∀ entry ∈ ElasticSource.sub_source str resolved slice, used.get entry.1 = entry.2 := by
    intro used
    rw [UsesRendered, uses_slice_iff]
    simp only [ElasticSource.sub_source, List.forall_mem_append, List.forall_mem_cons]
    tauto
  have hsettled := fun k => unchanged_resolved_iff (SourceConfig.resolve_get hresolved k)
  have hagain := fun k => renders_resolved_iff (SourceConfig.resolve_get hresolved k)
  simp only [huses]
  rw [SourceConfig.used_as_is_iff (fun entry hentry => ⟨hentry, hget entry hentry⟩)
    fun entry hentry => .inl hentry,
    ElasticSource.sub_source, List.forall_mem_append, slice_unchanged_iff]
  simp only [List.forall_mem_cons, ElasticSource.setting, ElasticSource.pit_keep_alive,
    hsettled, hagain, Stable,
    SourceConfig.resolve_get hresolved, Except.ok.injEq, forall_eq']
  simp
  tauto

theorem s3_rendered_iff {own resolved : SourceConfig}
    (hresolved : own.resolve_parameters render = .ok resolved) (keys : List String) :
    (∃ used, (S3Source.sub_source resolved keys).used render S3Source.setting = .ok used ∧
      UsesRendered str resolved used (.s3 keys)) ↔ Stable render str own (.s3 keys) := by
  have hget : ∀ entry ∈ S3Source.sub_source resolved keys, (S3Source.sub_source resolved keys).get
      entry.1 = entry.2 := by
    simp [S3Source.sub_source, SourceConfig.get, List.lookup_cons]
  have huses : ∀ used, UsesRendered str resolved used (.s3 keys) ↔
      ∀ entry ∈ S3Source.sub_source resolved keys, used.get entry.1 = entry.2 := by
    intro used
    simp only [UsesRendered, S3Source.sub_source, List.forall_mem_cons]
    tauto
  have hsettled := fun k => unchanged_resolved_iff (SourceConfig.resolve_get hresolved k)
  have hagain := fun k => renders_resolved_iff (SourceConfig.resolve_get hresolved k)
  have hpage : Unchanged render ((resolved.lookup "page_size").getD (.int 1000)) ↔
      Settled render (own.get "page_size") :=
    (unchanged_resolved_iff (SourceConfig.resolve_getD hresolved "page_size" rfl)).trans
      (settled_getD_iff _ _)
  have hkeys : Unchanged render (.list (keys.map .str)) ↔
      ∀ key ∈ keys, Unchanged render (.str key) := by
    simp [Unchanged, ParameterResolver.strings, ParameterResolver.mem_item_strings]
  simp only [huses]
  rw [SourceConfig.used_as_is_iff (fun entry hentry => ⟨hentry, hget entry hentry⟩)
    fun entry hentry => .inl hentry,
    S3Source.sub_source]
  simp only [List.forall_mem_cons, S3Source.setting, hsettled, hagain, hpage, hkeys, Stable]
  simp
  tauto

theorem engine_lookup (own : SourceConfig) (k : String) :
    (SqlSource.engine_kwargs own).lookup k = if SqlSource.named k then none else own.lookup k := by
  rw [SqlSource.engine_kwargs, Assoc.lookup_filter fun k => !SqlSource.named k]
  cases SqlSource.named k <;> rfl

-- What the child has beside its engine kwargs.
theorem sql_get (own resolved : SourceConfig) (cur nxt : ℤ) :
    ∀ entry ∈ SqlSource.sub_source str resolved [] cur nxt,
      entry ∈ SqlSource.sub_source str resolved (SqlSource.engine_kwargs own) cur nxt ∧
        (SqlSource.sub_source str resolved (SqlSource.engine_kwargs own) cur nxt).get
        entry.1 = entry.2 := by
  simp [SqlSource.sub_source, SourceConfig.get, List.lookup_cons, List.lookup_append,
    engine_lookup, SqlSource.named]

theorem sql_engine_lookup (own resolved : SourceConfig) (cur nxt : ℤ) {k : String}
    (hk : k ∉ sql_params) :
    (SqlSource.sub_source str resolved (SqlSource.engine_kwargs own) cur nxt).lookup k =
    own.lookup k := by
  have hnamed : SqlSource.named k = false := decide_eq_false hk
  simp only [sql_params, List.mem_cons, not_or] at hk
  obtain ⟨-, hurl, hquery, hid, htime, hbatch, -, hslice, -⟩ := hk
  rw [SqlSource.sub_source, List.lookup_append, List.lookup_append, engine_lookup, hnamed,
    Assoc.lookup_cons_of_ne hurl,
    Assoc.lookup_cons_of_ne hquery, Assoc.lookup_cons_of_ne hid, Assoc.lookup_cons_of_ne htime,
      Assoc.lookup_cons_of_ne hbatch,
    Assoc.lookup_cons_of_ne hslice]
  simp

theorem sql_setting {k : String} (hk : k ∉ sql_params) : SqlSource.setting k = true :=
  decide_eq_true (.inr (by rw [show SqlSource.named k = false from decide_eq_false hk]; rfl))

theorem windowed_eq (resolved : SourceConfig) (cur nxt : ℤ) :
    SqlSource.windowed str resolved cur nxt =
    window_query str (resolved.get "query") (resolved.get "id_column") cur nxt := rfl

-- A child reads its part of the rendered config where that is used as it is, and the engine
-- kwargs of the parent where they hold no template.
theorem uses_sql_iff {own resolved used : SourceConfig}
    (hresolved : own.resolve_parameters render = .ok resolved) {cur nxt : ℤ}
    (hused : (SqlSource.sub_source str resolved (SqlSource.engine_kwargs own) cur nxt).used render
      SqlSource.setting =
      .ok used) :
    UsesRendered str resolved used (.sql cur nxt) ↔
      (∀ entry ∈ SqlSource.sub_source str resolved [] cur nxt, used.get entry.1 = entry.2) ∧
        ∀ k ∉ sql_params, Unchanged render (own.get k) := by
  have hkwargs : (∀ k ∉ sql_params, used.lookup k = resolved.lookup k) ↔
      ∀ k ∉ sql_params, Unchanged render (own.get k) :=
    forall₂_congr fun k hk =>
      SourceConfig.used_lookup_iff hused hresolved (sql_setting hk)
        (sql_engine_lookup own resolved cur nxt hk)
  rw [UsesRendered, hkwargs, SqlSource.sub_source, windowed_eq, List.append_nil,
    List.forall_mem_append]
  simp only [List.forall_mem_cons]
  tauto

theorem sql_part_iff {own resolved : SourceConfig}
    (hresolved : own.resolve_parameters render = .ok resolved) (cur nxt : ℤ) :
    (∀ entry ∈ SqlSource.sub_source str resolved [] cur nxt, if SqlSource.setting entry.1 then
        ∃ v, ParameterResolver.resolve_value render entry.2 = .ok v else Unchanged render entry.2) ↔
      RendersAgain render (own.get "connection_url") ∧
        (∀ k ∈ ["time_column", "batch_size"], Settled render (own.get k)) ∧
        Unchanged render (.str (SqlSource.windowed str resolved cur nxt)) := by
  have htime := unchanged_resolved_iff (SourceConfig.resolve_get hresolved "time_column")
  have hagain := renders_resolved_iff (SourceConfig.resolve_get hresolved "connection_url")
  have hbatch : Unchanged render ((resolved.lookup "batch_size").getD (.int 1000)) ↔
      Settled render (own.get "batch_size") :=
    (unchanged_resolved_iff (SourceConfig.resolve_getD hresolved "batch_size" rfl)).trans
      (settled_getD_iff _ _)
  have hslice : Unchanged render (.dict [(.str "lo", .int cur), (.str "hi", .int nxt)]) := by
    simp [Unchanged, ParameterResolver.strings, ParameterResolver.entry_strings]
  have hnone : Unchanged render .None := by simp [Unchanged, ParameterResolver.strings]
  rw [SqlSource.sub_source]
  generalize SqlSource.windowed str resolved cur nxt = query
  simp [SqlSource.setting, SqlSource.named, htime, hagain, hbatch, hslice, hnone]
  tauto

theorem sql_rendered_iff {own resolved : SourceConfig}
    (hresolved : own.resolve_parameters render = .ok resolved) (cur nxt : ℤ) :
    (∃ used, (SqlSource.sub_source str resolved (SqlSource.engine_kwargs own) cur nxt).used render
      SqlSource.setting =
      .ok used ∧ UsesRendered str resolved used (.sql cur nxt)) ↔
        Stable render str own (.sql cur nxt) := by
  have hrest : ∀ entry ∈ SqlSource.sub_source str resolved (SqlSource.engine_kwargs own) cur nxt,
      entry ∈ SqlSource.sub_source str resolved [] cur nxt ∨
          ∃ v, ParameterResolver.resolve_value render entry.2 = .ok v := by
    intro entry hentry
    simp only [SqlSource.sub_source, List.mem_append, List.append_nil] at hentry ⊢
    rcases hentry with (hfixed | hkwargs) | hslice
    · exact .inl (.inl hfixed)
    · exact .inr (SourceConfig.renders_of_mem hresolved (List.mem_of_mem_filter hkwargs))
    · exact .inl (.inr hslice)
  have hsplit : (∃ used,
    (SqlSource.sub_source str resolved (SqlSource.engine_kwargs own) cur nxt).used render
      SqlSource.setting = .ok used ∧ UsesRendered str resolved used (.sql cur nxt)) ↔
        (∃ used, (SqlSource.sub_source str resolved (SqlSource.engine_kwargs own) cur nxt).used
          render SqlSource.setting =
          .ok used ∧ ∀ entry ∈ SqlSource.sub_source str resolved [] cur nxt,
            used.get entry.1 = entry.2) ∧
          ∀ k ∉ sql_params, Unchanged render (own.get k) := by
    rw [← exists_and_right]
    refine exists_congr fun used => ?_
    rw [and_assoc]
    exact and_congr_right fun hused => uses_sql_iff hresolved hused
  have hwindow : (∀ query id_column, ParameterResolver.resolve_value render
    (own.get "query") = .ok query →
      ParameterResolver.resolve_value render (own.get "id_column") = .ok id_column →
      Unchanged render (.str (window_query str query id_column cur nxt))) ↔
        Unchanged render (.str (SqlSource.windowed str resolved cur nxt)) := by
    constructor
    · intro h
      exact h _ _ (SourceConfig.resolve_get hresolved "query")
        (SourceConfig.resolve_get hresolved "id_column")
    · intro h query id_column hquery hid
      rw [← Except.ok.inj ((SourceConfig.resolve_get hresolved "query").symm.trans hquery),
        ← Except.ok.inj ((SourceConfig.resolve_get hresolved "id_column").symm.trans hid)]
      exact h
  rw [hsplit, SourceConfig.used_as_is_iff (sql_get own resolved cur nxt) hrest,
    sql_part_iff hresolved, Stable, hwindow]
  simp only [and_assoc]

theorem self_rendered_iff {own resolved : SourceConfig}
    (hresolved : own.resolve_parameters render = .ok resolved)
    {setting : String → Bool} : (∃ used, own.used render setting = .ok used ∧ used = resolved) ↔
      ∀ entry ∈ own, setting entry.1 → Unchanged render entry.2 := by
  rw [← SourceConfig.used_resolved_iff hresolved]
  exact ⟨fun ⟨_, hused, heq⟩ => heq ▸ hused, fun hused => ⟨resolved, hused, rfl⟩⟩

theorem rendered_once_iff (render : String → Except TemplateError String) (str : Value → String)
    (own : SourceConfig) (planned : PlannedSource) : RenderedOnce render str own planned ↔
      ∀ resolved, own.resolve_parameters render = .ok resolved → planned.Stable render str own := by
  refine forall_congr' fun resolved => forall_congr' fun hresolved => ?_
  cases planned with
  | elastic_self =>
      refine (self_rendered_iff hresolved).trans (forall₂_congr fun entry _ => ?_)
      rw [setting, ElasticSource.setting, decide_eq_true_iff]
  | sql_self =>
      refine (self_rendered_iff hresolved).trans (forall₂_congr fun entry _ => ?_)
      rw [setting, SqlSource.setting, decide_eq_true_iff, Bool.not_eq_true', SqlSource.named,
        decide_eq_false_iff_not]
      rfl
  | elastic slice => exact elastic_rendered_iff hresolved slice
  | s3 keys => exact s3_rendered_iff hresolved keys
  | sql cur nxt => exact sql_rendered_iff hresolved cur nxt

-- A query and a URL that are templates.
def templated_source : SourceConfig :=
  [("url", .str "\x7b\x7b host \x7d\x7d"), ("index", .str "logs"),
    ("base_query", .dict [(.str "term", .dict [(.str "user", .str "\x7b\x7b user \x7d\x7d")])]),
    ("scroll", .str "2m"), ("size", .int 1000), ("pit_keep_alive", .str "30m"), ("auth", .None),
    ("verify_certs", .bool true)]

-- The templates by these params: host, user = "{{ secret }}", and secret.
def with_params (text : String) : Except TemplateError String :=
  if text = "\x7b\x7b host \x7d\x7d" then .ok "http://localhost:9200"
  else if text = "\x7b\x7b user \x7d\x7d" then .ok "\x7b\x7b secret \x7d\x7d"
  else if text = "\x7b\x7b secret \x7d\x7d" then .ok "hunter2"
  else .ok text

-- The strings of a setting, where there is a config.
def strings_at (k : String) : Except Raised SourceConfig → List String
  | .ok config => ParameterResolver.strings (config.get k)
  | .error _ => []

-- A slice searches for the secret, and the source as a whole is read from no host.
theorem rendered_twice :
    ¬RenderedOnce with_params (fun _ => "") templated_source
      (.elastic (.window (.str "pit") .None 100)) ∧
      ¬RenderedOnce with_params (fun _ => "") templated_source .elastic_self := by
  constructor
  · intro honce
    obtain ⟨used, hused, hrendered, -⟩ := honce _ rfl
    have hquery := hrendered "base_query" (by decide)
    exact absurd ((congrArg (strings_at "base_query") hused).trans
      (congrArg ParameterResolver.strings hquery)) (by decide +kernel)
  · intro honce
    obtain ⟨used, hused, rfl⟩ := honce _ rfl
    exact absurd (congrArg (strings_at "url") hused) (by decide +kernel)

end PlannedSource

end Reflowfy
