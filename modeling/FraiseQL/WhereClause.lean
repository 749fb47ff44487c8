import FraiseQL.Error
import FraiseQL.Json

/-! The WHERE clause syntax tree (`where_clause.rs`), its operators and the names a filter gives them. Of
the extended operators (`filters/operators.rs`) those with SQL in some dialect are spelled out; every other
one only ever shows its display name in an error. -/

namespace FraiseQL

inductive ExtendedOperator where
  | emailDomainEq (domain : String)
  | emailDomainIn (domains : List String)
  | emailDomainEndswith (suffix : String)
  | emailLocalPartStartswith (start : String)
  | vinWmiEq (wmi : String)
  | ibanCountryEq (country : String)
  | other (display : String)
  deriving DecidableEq

inductive WhereOperator where
  | eq | neq | gt | gte | lt | lte
  | isIn | nin
  | contains | icontains | startswith | istartswith | endswith | iendswith
  | like | ilike | nlike | nilike | regex | iregex | nregex | niregex
  | isNull
  | arrayContains | arrayContainedBy | arrayOverlaps
  | lenEq | lenGt | lenLt | lenGte | lenLte | lenNeq
  | cosineDistance | l2Distance | l1Distance | hammingDistance | innerProduct | jaccardDistance
  | «matches» | plainQuery | phraseQuery | websearchQuery
  | isIPv4 | isIPv6 | isPrivate | isPublic | isLoopback
  | inSubnet | containsSubnet | containsIP | overlaps
  | strictlyContains
  | ancestorOf | descendantOf | matchesLquery | matchesLtxtquery | matchesAnyLquery
  | depthEq | depthNeq | depthGt | depthGte | depthLt | depthLte
  | lca
  | extended (op : ExtendedOperator)
  deriving DecidableEq

def WhereOperator.fromStr (s : String) : Except FraiseQLError WhereOperator :=
  match s with
  | "eq" => .ok .eq
  | "neq" => .ok .neq
  | "gt" => .ok .gt
  | "gte" => .ok .gte
  | "lt" => .ok .lt
  | "lte" => .ok .lte
  | "in" => .ok .isIn
  | "nin" | "notin" => .ok .nin
  | "contains" => .ok .contains
  | "icontains" => .ok .icontains
  | "startswith" => .ok .startswith
  | "istartswith" => .ok .istartswith
  | "endswith" => .ok .endswith
  | "iendswith" => .ok .iendswith
  | "like" => .ok .like
  | "ilike" => .ok .ilike
  | "nlike" => .ok .nlike
  | "nilike" => .ok .nilike
  | "regex" => .ok .regex
  | "iregex" | "imatches" => .ok .iregex
  | "nregex" | "not_matches" => .ok .nregex
  | "niregex" => .ok .niregex
  | "isnull" => .ok .isNull
  | "array_contains" => .ok .arrayContains
  | "array_contained_by" => .ok .arrayContainedBy
  | "array_overlaps" => .ok .arrayOverlaps
  | "len_eq" => .ok .lenEq
  | "len_gt" => .ok .lenGt
  | "len_lt" => .ok .lenLt
  | "len_gte" => .ok .lenGte
  | "len_lte" => .ok .lenLte
  | "len_neq" => .ok .lenNeq
  | "cosine_distance" => .ok .cosineDistance
  | "l2_distance" => .ok .l2Distance
  | "l1_distance" => .ok .l1Distance
  | "hamming_distance" => .ok .hammingDistance
  | "inner_product" => .ok .innerProduct
  | "jaccard_distance" => .ok .jaccardDistance
  | "matches" => .ok .matches
  | "plain_query" => .ok .plainQuery
  | "phrase_query" => .ok .phraseQuery
  | "websearch_query" => .ok .websearchQuery
  | "is_ipv4" => .ok .isIPv4
  | "is_ipv6" => .ok .isIPv6
  | "is_private" => .ok .isPrivate
  | "is_public" => .ok .isPublic
  | "is_loopback" => .ok .isLoopback
  | "in_subnet" | "inrange" => .ok .inSubnet
  | "contains_subnet" => .ok .containsSubnet
  | "contains_ip" => .ok .containsIP
  | "overlaps" => .ok .overlaps
  | "strictly_contains" => .ok .strictlyContains
  | "ancestor_of" => .ok .ancestorOf
  | "descendant_of" => .ok .descendantOf
  | "matches_lquery" => .ok .matchesLquery
  | "matches_ltxtquery" => .ok .matchesLtxtquery
  | "matches_any_lquery" => .ok .matchesAnyLquery
  | "depth_eq" => .ok .depthEq
  | "depth_neq" => .ok .depthNeq
  | "depth_gt" => .ok .depthGt
  | "depth_gte" => .ok .depthGte
  | "depth_lt" => .ok .depthLt
  | "depth_lte" => .ok .depthLte
  | "lca" => .ok .lca
  | _ => .error (.validation ("Unknown WHERE operator: " ++ s) none)

/-- The parameter cast of a native column. The source keeps a string; every value of it is a result of
`pg_type_to_cast` or `sql_type_to_pg_cast`, and those are the names below. -/
inductive PgCast where
  | none | uuid | int4 | int8 | int2 | bool | numeric | float8 | float4
  | timestamp | timestamptz | date | time
  deriving DecidableEq

inductive WhereClause where
  | field (path : List String) (operator : WhereOperator) (value : Json)
  | and (clauses : List WhereClause)
  | or (clauses : List WhereClause)
  | not (clause : WhereClause)
  | nativeField (column : String) (pgCast : PgCast) (operator : WhereOperator) (value : Json)

namespace WhereClause

def isEmpty : WhereClause → Bool
  | .and clauses => clauses.isEmpty
  | .or clauses => clauses.isEmpty
  | _ => false

end WhereClause

end FraiseQL
