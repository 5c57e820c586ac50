/-! The fixed code of the helper that sends requests. -/

namespace TypedClient.TypeScript

/-- The helper: the options it takes, how it builds an address, and how it sends a request and
reads the answer. -/
def serviceLines : List String := [
  "type Methods =",
  "  | 'GET'",
  "  | 'HEAD'",
  "  | 'PATCH'",
  "  | 'POST'",
  "  | 'PUT'",
  "  | 'DELETE'",
  "  | 'CONNECT'",
  "  | 'OPTIONS'",
  "  | 'TRACE'",
  "  | 'get'",
  "  | 'head'",
  "  | 'patch'",
  "  | 'post'",
  "  | 'put'",
  "  | 'delete'",
  "  | 'connect'",
  "  | 'options'",
  "  | 'trace'",
  "",
  r"export interface ApiServiceOptions {",
  "  method?: Methods",
  "  query?: Record<string, any>",
  "  body?: any",
  "  headers?: HeadersInit",
  "  baseURL?: string",
  "  parseResponse?: boolean",
  r"}",
  "",
  r"const buildUrl = (url: string, baseURL: string, query?: Record<string, any>): string => {",
  "  const path = url.startsWith('/') ? url : `/${url}`",
  "  const search = new URLSearchParams()",
  "",
  r"  for (const [key, value] of Object.entries(query ?? {})) {",
  "    if (value === undefined || value === null) continue",
  r"    if (Array.isArray(value)) {",
  "      value.forEach((item) => search.append(key, String(item)))",
  r"    } else {",
  "      search.append(key, String(value))",
  r"    }",
  r"  }",
  "",
  "  const qs = search.toString()",
  r"  const target = `${baseURL.replace(/\/+$/, '')}${path}`",
  "  return qs ? `${target}?${qs}` : target",
  r"}",
  "",
  r"export async function useApiService<T>(url: string, options: ApiServiceOptions = {}): Promise<T> {",
  r"  const {",
  "    method = 'GET',",
  "    query,",
  "    body,",
  "    headers = {},",
  "    baseURL = '',",
  "    parseResponse = true",
  r"  } = options",
  "",
  "  const requestHeaders = new Headers(headers)",
  r"  if (body !== undefined && !requestHeaders.has('Content-Type')) {",
  "    requestHeaders.set('Content-Type', 'application/json')",
  r"  }",
  "",
  r"  try {",
  r"    const response = await fetch(buildUrl(url, baseURL, query), {",
  "      method: method.toUpperCase(),",
  "      headers: requestHeaders,",
  "      body: body === undefined ? undefined : JSON.stringify(body)",
  r"    })",
  "",
  r"    if (!response.ok) {",
  "      throw new Error(`${method.toUpperCase()} ${url} failed with status ${response.status}`)",
  r"    }",
  "",
  r"    if (!parseResponse) {",
  "      return response as unknown as T",
  r"    }",
  "",
  "    const text = await response.text()",
  "    return (text ? JSON.parse(text) : undefined) as T",
  r"  } catch (err: any) {",
  "    console.error(`[useApiService] ${method.toUpperCase()} ${url}`, err)",
  "    throw err",
  r"  }",
  r"}"]

def serviceSource : String := "\n".intercalate serviceLines

end TypedClient.TypeScript
