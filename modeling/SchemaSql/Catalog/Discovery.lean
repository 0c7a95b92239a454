import SchemaSql.Dialect.Basic

/-!
The questions a database is asked about its own objects, and how each dialect asks them. A dialect
that cannot answer a question has no query for it. Every question but the first is about one object,
whose schema and name are the parameters.
-/

set_option autoImplicit false
set_option relaxedAutoImplicit false

namespace SchemaSql

inductive Discovery
  | objects
  | table
  | columns
  | indexes
  | routine
  | parameters
  | functionColumns
deriving DecidableEq

def Discovery.all : List Discovery :=
  [.objects, .table, .columns, .indexes, .routine, .parameters, .functionColumns]

namespace Dialect

def sqlServerColumns : String :=
  "SELECT c.name AS column_name, t.name AS type_name, c.is_nullable, c.is_identity, " ++
  "c.is_computed, CAST(CASE WHEN EXISTS (SELECT 1 FROM sys.index_columns ic " ++
  "INNER JOIN sys.indexes i ON i.object_id = ic.object_id AND i.index_id = ic.index_id " ++
  "WHERE i.is_primary_key = 1 AND ic.object_id = c.object_id AND ic.column_id = c.column_id) " ++
  "THEN 1 ELSE 0 END AS bit) AS is_primary_key, CAST(c.max_length AS int) AS max_length, " ++
  "CAST(c.precision AS int) AS precision, CAST(c.scale AS int) AS scale " ++
  "FROM sys.columns c INNER JOIN sys.types t ON t.user_type_id = c.user_type_id " ++
  "WHERE c.object_id = OBJECT_ID(QUOTENAME(COALESCE(@Schema, SCHEMA_NAME())) + '.' + QUOTENAME(@Name)) " ++
  "ORDER BY c.column_id;"

def sqlServerQuery : Discovery → Option String
  | .objects => some (
    "SELECT s.name AS schema_name, o.name AS object_name, " ++
    "CASE o.type WHEN 'U' THEN 'TABLE' WHEN 'V' THEN 'VIEW' WHEN 'P' THEN 'PROCEDURE' " ++
    "ELSE 'FUNCTION' END AS object_type " ++
    "FROM sys.objects o INNER JOIN sys.schemas s ON s.schema_id = o.schema_id " ++
    "WHERE o.type IN ('U', 'V', 'P', 'IF', 'TF') AND o.is_ms_shipped = 0 " ++
    "ORDER BY s.name, o.name;")
  | .table => some (
    "SELECT s.name AS schema_name, o.name AS object_name, " ++
    "CAST(CASE WHEN o.type = 'U' THEN 1 ELSE 0 END AS bit) AS is_table " ++
    "FROM sys.objects o INNER JOIN sys.schemas s ON s.schema_id = o.schema_id " ++
    "WHERE o.type IN ('U', 'V') AND s.name = COALESCE(@Schema, SCHEMA_NAME()) " ++
    "AND o.name = @Name;")
  | .columns => some sqlServerColumns
  | .indexes => some (
    "SELECT i.name AS index_name, i.is_unique, i.is_primary_key, c.name AS column_name, " ++
    "ic.is_descending_key AS is_descending " ++
    "FROM sys.indexes i " ++
    "INNER JOIN sys.index_columns ic ON ic.object_id = i.object_id AND ic.index_id = i.index_id " ++
    "INNER JOIN sys.columns c ON c.object_id = ic.object_id AND c.column_id = ic.column_id " ++
    "WHERE i.object_id = OBJECT_ID(QUOTENAME(COALESCE(@Schema, SCHEMA_NAME())) + '.' + QUOTENAME(@Name)) " ++
    "AND ic.is_included_column = 0 AND i.name IS NOT NULL " ++
    "ORDER BY i.index_id, ic.key_ordinal;")
  | .routine => some (
    "SELECT s.name AS schema_name, o.name AS object_name, " ++
    "CASE o.type WHEN 'P' THEN 'PROCEDURE' ELSE 'FUNCTION' END AS object_type " ++
    "FROM sys.objects o INNER JOIN sys.schemas s ON s.schema_id = o.schema_id " ++
    "WHERE o.type IN ('P', 'IF', 'TF') AND s.name = COALESCE(@Schema, SCHEMA_NAME()) " ++
    "AND o.name = @Name;")
  | .parameters => some (
    "SELECT p.name AS parameter_name, t.name AS type_name, " ++
    "CASE WHEN p.is_output = 1 THEN 'INOUT' ELSE 'IN' END AS parameter_mode " ++
    "FROM sys.parameters p INNER JOIN sys.types t ON t.user_type_id = p.user_type_id " ++
    "WHERE p.object_id = OBJECT_ID(QUOTENAME(COALESCE(@Schema, SCHEMA_NAME())) + '.' + QUOTENAME(@Name)) " ++
    "AND p.parameter_id > 0 ORDER BY p.parameter_id;")
  | .functionColumns => some sqlServerColumns

def postgreSqlQuery : Discovery → Option String
  | .objects => some (
    "SELECT table_schema AS schema_name, table_name AS object_name, " ++
    "CASE table_type WHEN 'VIEW' THEN 'VIEW' ELSE 'TABLE' END AS object_type " ++
    "FROM information_schema.tables " ++
    "WHERE table_schema NOT IN ('pg_catalog', 'information_schema') " ++
    "UNION ALL " ++
    "SELECT n.nspname, p.proname, CASE p.prokind WHEN 'p' THEN 'PROCEDURE' ELSE 'FUNCTION' END " ++
    "FROM pg_proc p JOIN pg_namespace n ON n.oid = p.pronamespace " ++
    "WHERE n.nspname NOT IN ('pg_catalog', 'information_schema') " ++
    "AND (p.prokind = 'p' OR p.proretset) " ++
    "ORDER BY 1, 2")
  | .table => some (
    "SELECT table_schema AS schema_name, table_name AS object_name, " ++
    "table_type = 'BASE TABLE' AS is_table " ++
    "FROM information_schema.tables " ++
    "WHERE table_schema = COALESCE($1::text, current_schema()) AND table_name = $2")
  | .columns => some (
    "SELECT c.column_name, c.udt_name AS type_name, c.is_nullable = 'YES' AS is_nullable, " ++
    "(c.is_identity = 'YES' OR COALESCE(c.column_default, '') LIKE 'nextval(%') AS is_identity, " ++
    "c.is_generated = 'ALWAYS' AS is_computed, " ++
    "EXISTS (SELECT 1 FROM information_schema.table_constraints tc " ++
    "JOIN information_schema.key_column_usage k ON k.constraint_schema = tc.constraint_schema " ++
    "AND k.constraint_name = tc.constraint_name AND k.table_name = tc.table_name " ++
    "WHERE tc.constraint_type = 'PRIMARY KEY' AND tc.table_schema = c.table_schema " ++
    "AND tc.table_name = c.table_name AND k.column_name = c.column_name) AS is_primary_key, " ++
    "c.character_maximum_length AS max_length, c.numeric_precision AS precision, " ++
    "c.numeric_scale AS scale " ++
    "FROM information_schema.columns c " ++
    "WHERE c.table_schema = COALESCE($1::text, current_schema()) AND c.table_name = $2 " ++
    "ORDER BY c.ordinal_position")
  | .indexes => some (
    "SELECT ic.relname AS index_name, ix.indisunique AS is_unique, " ++
    "ix.indisprimary AS is_primary_key, a.attname AS column_name, " ++
    "(ix.indoption[k.ordinality - 1] & 1) = 1 AS is_descending " ++
    "FROM pg_index ix " ++
    "JOIN pg_class t ON t.oid = ix.indrelid " ++
    "JOIN pg_namespace n ON n.oid = t.relnamespace " ++
    "JOIN pg_class ic ON ic.oid = ix.indexrelid " ++
    "CROSS JOIN LATERAL unnest(ix.indkey) WITH ORDINALITY AS k(attnum, ordinality) " ++
    "JOIN pg_attribute a ON a.attrelid = t.oid AND a.attnum = k.attnum " ++
    "WHERE n.nspname = COALESCE($1::text, current_schema()) AND t.relname = $2 " ++
    "ORDER BY ic.relname, k.ordinality")
  | .routine => some (
    "SELECT n.nspname AS schema_name, p.proname AS object_name, " ++
    "CASE p.prokind WHEN 'p' THEN 'PROCEDURE' ELSE 'FUNCTION' END AS object_type " ++
    "FROM pg_proc p JOIN pg_namespace n ON n.oid = p.pronamespace " ++
    "WHERE n.nspname = COALESCE($1::text, current_schema()) AND p.proname = $2 " ++
    "AND (p.prokind = 'p' OR p.proretset)")
  | .parameters => some (
    "SELECT p.parameter_name, p.udt_name AS type_name, p.parameter_mode " ++
    "FROM information_schema.parameters p " ++
    "JOIN information_schema.routines r ON r.specific_schema = p.specific_schema " ++
    "AND r.specific_name = p.specific_name " ++
    "WHERE r.routine_schema = COALESCE($1::text, current_schema()) AND r.routine_name = $2 " ++
    "ORDER BY p.ordinal_position")
  | .functionColumns => some (
    "SELECT p.parameter_name AS column_name, p.udt_name AS type_name, TRUE AS is_nullable, " ++
    "FALSE AS is_identity, FALSE AS is_computed, FALSE AS is_primary_key, " ++
    "p.character_maximum_length AS max_length, p.numeric_precision AS precision, " ++
    "p.numeric_scale AS scale " ++
    "FROM information_schema.parameters p " ++
    "JOIN information_schema.routines r ON r.specific_schema = p.specific_schema " ++
    "AND r.specific_name = p.specific_name " ++
    "WHERE r.routine_schema = COALESCE($1::text, current_schema()) AND r.routine_name = $2 " ++
    "AND p.parameter_mode IN ('OUT', 'INOUT') " ++
    "ORDER BY p.ordinal_position")

def mySqlQuery : Discovery → Option String
  | .objects => some (
    "SELECT TABLE_SCHEMA AS schema_name, TABLE_NAME AS object_name, " ++
    "CASE TABLE_TYPE WHEN 'VIEW' THEN 'VIEW' ELSE 'TABLE' END AS object_type " ++
    "FROM INFORMATION_SCHEMA.TABLES WHERE TABLE_SCHEMA = DATABASE() " ++
    "UNION ALL " ++
    "SELECT ROUTINE_SCHEMA, ROUTINE_NAME, 'PROCEDURE' " ++
    "FROM INFORMATION_SCHEMA.ROUTINES " ++
    "WHERE ROUTINE_SCHEMA = DATABASE() AND ROUTINE_TYPE = 'PROCEDURE'")
  | .table => some (
    "SELECT TABLE_SCHEMA AS schema_name, TABLE_NAME AS object_name, " ++
    "TABLE_TYPE = 'BASE TABLE' AS is_table " ++
    "FROM INFORMATION_SCHEMA.TABLES " ++
    "WHERE TABLE_SCHEMA = COALESCE(?, DATABASE()) AND TABLE_NAME = ?")
  | .columns => some (
    "SELECT COLUMN_NAME AS column_name, COLUMN_TYPE AS type_name, " ++
    "IS_NULLABLE = 'YES' AS is_nullable, EXTRA LIKE '%auto_increment%' AS is_identity, " ++
    "EXTRA LIKE '%GENERATED%' AS is_computed, COLUMN_KEY = 'PRI' AS is_primary_key, " ++
    "CHARACTER_MAXIMUM_LENGTH AS max_length, NUMERIC_PRECISION AS `precision`, " ++
    "NUMERIC_SCALE AS scale " ++
    "FROM INFORMATION_SCHEMA.COLUMNS " ++
    "WHERE TABLE_SCHEMA = COALESCE(?, DATABASE()) AND TABLE_NAME = ? " ++
    "ORDER BY ORDINAL_POSITION")
  | .indexes => some (
    "SELECT INDEX_NAME AS index_name, NON_UNIQUE = 0 AS is_unique, " ++
    "INDEX_NAME = 'PRIMARY' AS is_primary_key, COLUMN_NAME AS column_name, " ++
    "COLLATION = 'D' AS is_descending " ++
    "FROM INFORMATION_SCHEMA.STATISTICS " ++
    "WHERE TABLE_SCHEMA = COALESCE(?, DATABASE()) AND TABLE_NAME = ? " ++
    "ORDER BY INDEX_NAME, SEQ_IN_INDEX")
  | .routine => some (
    "SELECT ROUTINE_SCHEMA AS schema_name, ROUTINE_NAME AS object_name, " ++
    "'PROCEDURE' AS object_type " ++
    "FROM INFORMATION_SCHEMA.ROUTINES " ++
    "WHERE ROUTINE_SCHEMA = COALESCE(?, DATABASE()) AND ROUTINE_NAME = ? " ++
    "AND ROUTINE_TYPE = 'PROCEDURE'")
  | .parameters => some (
    "SELECT PARAMETER_NAME AS parameter_name, DTD_IDENTIFIER AS type_name, " ++
    "PARAMETER_MODE AS parameter_mode " ++
    "FROM INFORMATION_SCHEMA.PARAMETERS " ++
    "WHERE SPECIFIC_SCHEMA = COALESCE(?, DATABASE()) AND SPECIFIC_NAME = ? " ++
    "AND ORDINAL_POSITION > 0 ORDER BY ORDINAL_POSITION")
  | .functionColumns => none

def sqliteQuery : Discovery → Option String
  | .objects => some (
    "SELECT NULL AS schema_name, name AS object_name, UPPER(type) AS object_type " ++
    "FROM sqlite_master WHERE type IN ('table', 'view') AND name NOT LIKE 'sqlite_%' " ++
    "ORDER BY name")
  | .table => some (
    "SELECT NULL AS schema_name, name AS object_name, type = 'table' AS is_table " ++
    "FROM sqlite_master WHERE type IN ('table', 'view') AND name = ?2 COLLATE NOCASE " ++
    "AND (?1 IS NULL OR ?1 = 'main')")
  | .columns => some (
    "SELECT c.name AS column_name, c.type AS type_name, " ++
    "c.\"notnull\" = 0 AND c.pk = 0 AS is_nullable, " ++
    "c.pk = 1 AND UPPER(c.type) = 'INTEGER' " ++
    "AND (SELECT COUNT(*) FROM pragma_table_xinfo(?2) k WHERE k.pk > 0) = 1 AS is_identity, " ++
    "c.hidden IN (2, 3) AS is_computed, c.pk > 0 AS is_primary_key, " ++
    "NULL AS max_length, NULL AS precision, NULL AS scale " ++
    "FROM pragma_table_xinfo(?2) c WHERE (?1 IS NULL OR ?1 = 'main') " ++
    "ORDER BY c.cid")
  | .indexes => some (
    "SELECT il.name AS index_name, il.\"unique\" AS is_unique, " ++
    "il.origin = 'pk' AS is_primary_key, ix.name AS column_name, " ++
    "ix.\"desc\" AS is_descending " ++
    "FROM pragma_index_list(?2) il JOIN pragma_index_xinfo(il.name) ix ON ix.key = 1 " ++
    "WHERE (?1 IS NULL OR ?1 = 'main') " ++
    "ORDER BY il.seq, ix.seqno")
  | .routine => none
  | .parameters => none
  | .functionColumns => none

def discoveryQuery? : Dialect → Discovery → Option String
  | .sqlServer => sqlServerQuery
  | .postgreSql => postgreSqlQuery
  | .mySql => mySqlQuery
  | .sqlite => sqliteQuery
  | .access => fun _ ↦ none

def supportsDiscovery (d : Dialect) : Bool := d != .access

end Dialect

end SchemaSql
