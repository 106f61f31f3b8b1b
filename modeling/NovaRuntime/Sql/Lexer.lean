/-
# NovaRuntime.Sql.Lexer — the tokens of a query text

The tokens of `lexer.rs`, each with the positions of its first character and of the one behind it.
A keyword is a word of a fixed list; the source has one variant of `Token` for each.
-/
import NovaRuntime.Sql.Ast

namespace NovaRuntime.Sql

open NovaRuntime.Library

set_option autoImplicit false

/-! ## Tokens -/

inductive Keyword where
  | select | fromKw | whereKw | insert | into | values | update | set | delete | create | table
  | drop | and | or | not | null | is | inKw | between | like | iLike | true | false | as | on
  | join | group | byKw | having | order | asc | desc | limit | offset | distinct | all | exists
  | default | count | sum | avg | min | max | case | when | thenKw | elseKw | endKw | cast
  | primary | key | unique | nulls | first | last | check
  deriving DecidableEq

/-- The word of a keyword, in lower case. -/
def Keyword.word : Keyword → Text
  | .select => ['s', 'e', 'l', 'e', 'c', 't']
  | .fromKw => ['f', 'r', 'o', 'm']
  | .whereKw => ['w', 'h', 'e', 'r', 'e']
  | .insert => ['i', 'n', 's', 'e', 'r', 't']
  | .into => ['i', 'n', 't', 'o']
  | .values => ['v', 'a', 'l', 'u', 'e', 's']
  | .update => ['u', 'p', 'd', 'a', 't', 'e']
  | .set => ['s', 'e', 't']
  | .delete => ['d', 'e', 'l', 'e', 't', 'e']
  | .create => ['c', 'r', 'e', 'a', 't', 'e']
  | .table => ['t', 'a', 'b', 'l', 'e']
  | .drop => ['d', 'r', 'o', 'p']
  | .and => ['a', 'n', 'd']
  | .or => ['o', 'r']
  | .not => ['n', 'o', 't']
  | .null => ['n', 'u', 'l', 'l']
  | .is => ['i', 's']
  | .inKw => ['i', 'n']
  | .between => ['b', 'e', 't', 'w', 'e', 'e', 'n']
  | .like => ['l', 'i', 'k', 'e']
  | .iLike => ['i', 'l', 'i', 'k', 'e']
  | .true => ['t', 'r', 'u', 'e']
  | .false => ['f', 'a', 'l', 's', 'e']
  | .as => ['a', 's']
  | .on => ['o', 'n']
  | .join => ['j', 'o', 'i', 'n']
  | .group => ['g', 'r', 'o', 'u', 'p']
  | .byKw => ['b', 'y']
  | .having => ['h', 'a', 'v', 'i', 'n', 'g']
  | .order => ['o', 'r', 'd', 'e', 'r']
  | .asc => ['a', 's', 'c']
  | .desc => ['d', 'e', 's', 'c']
  | .limit => ['l', 'i', 'm', 'i', 't']
  | .offset => ['o', 'f', 'f', 's', 'e', 't']
  | .distinct => ['d', 'i', 's', 't', 'i', 'n', 'c', 't']
  | .all => ['a', 'l', 'l']
  | .exists => ['e', 'x', 'i', 's', 't', 's']
  | .default => ['d', 'e', 'f', 'a', 'u', 'l', 't']
  | .count => ['c', 'o', 'u', 'n', 't']
  | .sum => ['s', 'u', 'm']
  | .avg => ['a', 'v', 'g']
  | .min => ['m', 'i', 'n']
  | .max => ['m', 'a', 'x']
  | .case => ['c', 'a', 's', 'e']
  | .when => ['w', 'h', 'e', 'n']
  | .thenKw => ['t', 'h', 'e', 'n']
  | .elseKw => ['e', 'l', 's', 'e']
  | .endKw => ['e', 'n', 'd']
  | .cast => ['c', 'a', 's', 't']
  | .primary => ['p', 'r', 'i', 'm', 'a', 'r', 'y']
  | .key => ['k', 'e', 'y']
  | .unique => ['u', 'n', 'i', 'q', 'u', 'e']
  | .nulls => ['n', 'u', 'l', 'l', 's']
  | .first => ['f', 'i', 'r', 's', 't']
  | .last => ['l', 'a', 's', 't']
  | .check => ['c', 'h', 'e', 'c', 'k']

inductive Symbol where
  | plus | minus | star | slash | percent
  | eq | notEq | lt | ltEq | gt | gtEq
  | concat | colonColon
  | lParen | rParen | comma | semicolon | dot
  deriving DecidableEq

inductive Token where
  | keyword (k : Keyword)
  | identifier (name : Text)
  | number (digits : Text)
  | string (s : Text)
  | symbol (s : Symbol)
  | eof
  deriving DecidableEq

/-- A token with the position it starts at and the position behind it. -/
abbrev Placed := Token × Nat × Nat

end NovaRuntime.Sql
